import RubyOlm.DoubleRatchet.Decrypted
import RubyOlm.DoubleRatchet.Symbolic

/-!
# The chains of a ratchet

What holds of the three lists of a ratchet after any calls, whatever the cipher accepts and the hash
functions give: no two receiver chains are under one ratchet key, and there is always a chain to go on from.
-/

namespace RubyOlm.Ratchet

variable {Key Msg : Type} (ops : RatchetOps Key Msg)

/-- The ratchets that calls with any arguments lead to, from a start on either side. -/
inductive Called : Ratchet Key → Prop
  | alice (memory : Ratchet Key) (secret : Bytes) (ourRatchetKey : Curve25519KeyPair) :
      Called ((new memory).initialiseAsAlice ops secret ourRatchetKey)
  | bob (memory : Ratchet Key) (secret : Bytes) (theirRatchetKey : PublicKey) :
      Called ((new memory).initialiseAsBob ops secret theirRatchetKey)
  | encrypt {ratchet : Ratchet Key} (called : Called ratchet) (plaintext random output : Bytes) :
      Called (ratchet.encrypt ops plaintext random output).1
  | decrypt {ratchet : Ratchet Key} (called : Called ratchet) (input : Msg) (maxPlaintextLength : Nat) :
      Called (ratchet.decrypt ops input maxPlaintextLength).1

structure Sound (ratchet : Ratchet Key) : Prop where
  distinct : ratchet.receiverKeys.Nodup
  someChain : ratchet.senderChain.toList ≠ [] ∨ ratchet.receiverChains.toList ≠ []

variable {ops} {ratchet ratchet' : Ratchet Key}

theorem encryptOnChain_sender (ratchet : Ratchet Key) (plaintext output : Bytes)
    (some : ratchet.senderChain.toList ≠ []) :
    (ratchet.encryptOnChain ops plaintext output).1.senderChain.toList ≠ [] := by
  unfold encryptOnChain
  simp only [OlmList.toList_set]
  rwa [ne_eq, List.set_eq_nil_iff]

variable (ops) in
/-- An `encrypt` leaves the receiver chains alone, and a sender chain behind if it finds or makes one. -/
theorem encrypt_chains (ratchet : Ratchet Key) (plaintext random output : Bytes) :
    (ratchet.encrypt ops plaintext random output).1.receiverChains = ratchet.receiverChains ∧
      (ratchet.senderChain.toList ≠ [] →
        (ratchet.encrypt ops plaintext random output).1.senderChain.toList ≠ []) := by
  unfold encrypt
  simp only
  split
  · exact ⟨rfl, id⟩
  · split
    · exact ⟨rfl, id⟩
    · split
      · rename_i none
        rw [OlmList.empty_iff] at none
        exact ⟨rfl, fun some => absurd none some⟩
      · exact ⟨rfl, encryptOnChain_sender ratchet plaintext
          (output.take (ratchet.encryptOutputLength ops plaintext.length))⟩

theorem Sound.encrypt (sound : ratchet.Sound) (plaintext random output : Bytes) :
    (ratchet.encrypt ops plaintext random output).1.Sound := by
  obtain ⟨receivers, sender⟩ := encrypt_chains ops ratchet plaintext random output
  refine ⟨?_, ?_⟩
  · rw [receiverKeys, receivers]
    exact sound.distinct
  · rw [receivers]
    exact sound.someChain.imp_left sender

/-- A new receiver chain is under a key that no other chain is under, and the oldest chain may go. -/
theorem distinct_cons {chains : List (ReceiverChain Key)} {chain : ReceiverChain Key} {count : Nat}
    (distinct : (chains.map ReceiverChain.ratchetKey).Nodup)
    (unknown : findChain chain.ratchetKey chains = none) :
    (((chain :: chains).take count).map ReceiverChain.ratchetKey).Nodup := by
  rw [List.map_take, List.map_cons]
  apply List.Nodup.sublist (List.take_sublist _ _)
  refine List.nodup_cons.mpr ⟨?_, distinct⟩
  intro mem
  obtain ⟨other, listed, same⟩ := List.mem_map.mp mem
  exact findChain_eq_none.mp unknown other listed same

/-- Moving a chain on keeps its key. -/
theorem keys_set {chains : List (ReceiverChain Key)} {ratchetKey : PublicKey} {pos : Nat} {chain : ReceiverChain Key}
    (found : findChain ratchetKey chains = some (pos, chain)) (chainKey : ChainKey Key) :
    (chains.set pos ⟨ratchetKey, chainKey⟩).map ReceiverChain.ratchetKey =
      chains.map ReceiverChain.ratchetKey := by
  obtain ⟨listed, same⟩ := findChain_eq_some found
  have mapped : (chains.map ReceiverChain.ratchetKey)[pos]? = some ratchetKey := by
    rw [List.getElem?_map, listed, Option.map_some, same]
  obtain ⟨_, value⟩ := List.getElem?_eq_some_iff.mp mapped
  rw [List.map_set, ← value, List.set_getElem_self]

theorem Sound.decrypted (sound : ratchet.Sound) {reader : CheckedReader Msg} {maxPlaintextLength : Nat}
    {plaintext : Bytes} (decrypted : Decrypted ops ratchet reader maxPlaintextLength plaintext ratchet') :
    ratchet'.Sound := by
  cases decrypted with
  | newChain rootKey chainKey unknown _ _ _ _ _ receivers _ =>
    refine ⟨?_, .inr ?_⟩
    · rw [receiverKeys, receivers]
      exact distinct_cons sound.distinct unknown
    · rw [receivers]
      exact List.cons_ne_nil _ _
  | liveChain pos chain count found _ _ _ _ receivers _ =>
    refine ⟨?_, .inr ?_⟩
    · rw [receiverKeys, receivers, keys_set found]
      exact sound.distinct
    · rw [receivers, ne_eq, List.set_eq_nil_iff]
      rintro none
      rw [none] at found
      cases found
  | skippedKey _ _ _ _ _ _ sender receivers _ =>
    refine ⟨?_, ?_⟩
    · rw [receiverKeys, receivers]
      exact sound.distinct
    · rw [sender, receivers]
      exact sound.someChain

theorem Sound.decrypt (sound : ratchet.Sound) (input : Msg) (maxPlaintextLength : Nat) :
    (ratchet.decrypt ops input maxPlaintextLength).1.Sound := by
  rcases done : ratchet.decrypt ops input maxPlaintextLength with ⟨ratchet', _ | plaintext⟩
  · rw [decrypt_eq_none ops done]
    exact ⟨sound.distinct, sound.someChain⟩
  · obtain ⟨_, _, decrypted⟩ := decrypt_eq_some ops done
    exact sound.decrypted decrypted

theorem Called.sound (called : Called ops ratchet) : ratchet.Sound := by
  induction called with
  | alice memory secret ourRatchetKey =>
    refine ⟨List.nodup_nil, .inl ?_⟩
    rw [initialiseAsAlice_sender]
    exact List.cons_ne_nil _ _
  | bob memory secret theirRatchetKey =>
    have receivers := initialiseAsBob_receivers ops memory secret theirRatchetKey
    refine ⟨?_, .inr ?_⟩
    · rw [receiverKeys, receivers]
      exact List.nodup_singleton _
    · rw [receivers]
      exact List.cons_ne_nil _ _
  | encrypt _ plaintext random output ih => exact ih.encrypt plaintext random output
  | decrypt _ input maxPlaintextLength ih => exact ih.decrypt input maxPlaintextLength

/-- The bounds of the lists, different receiver chains, and no read of the first entry of an empty list: not
when `encrypt` starts a sender chain, nor when `decrypt` starts a receiver chain. -/
theorem chains_of_called (called : Called ops ratchet) :
    ratchet.senderChain.toList.length ≤ 1 ∧ ratchet.receiverChains.toList.length ≤ 5 ∧
      ratchet.skippedMessageKeys.toList.length ≤ 40 ∧ ratchet.receiverKeys.Nodup ∧
      (ratchet.senderChain.toList ≠ [] ∨ ratchet.receiverChains.toList ≠ []) ∧
      (ratchet.senderChain.empty → ratchet.receiverChains.toList ≠ []) ∧
      ∀ reader maxPlaintextLength plaintext,
        findChain reader.ratchetKey ratchet.receiverChains.toList = none →
          verifyMacAndDecryptForNewChain ops ratchet reader maxPlaintextLength = some plaintext →
            ratchet.senderChain.toList ≠ [] := by
  have sound := called.sound
  have length {α : Type} {maxSize : Nat} (l : OlmList α maxSize) : l.toList.length ≤ maxSize := by
    rw [OlmList.length_toList]
    exact l.size_le
  refine ⟨length _, length _, length _, sound.distinct, sound.someChain, ?_, ?_⟩
  · intro none
    rw [OlmList.empty_iff] at none
    exact sound.someChain.resolve_left fun some => some none
  · intro reader maxPlaintextLength plaintext _ verified
    exact ((verifyNewChain_eq_some_iff ops).mp verified).1

/-! ### A run that opens a chain -/

/-- Alice's ratchet after her first message. -/
def askedRatchet : Ratchet (KeyTerm Bytes Bytes Bytes) :=
  (((new (clearedRatchet .zero)).initialiseAsAlice symbolicRatchet [] symbolicPair).encrypt symbolicRatchet
    [104] [] [0]).1

/-- Bob's answer to it, under a ratchet key of his own. -/
def answer : SymbolicMessage :=
  (((new (clearedRatchet .zero)).initialiseAsBob symbolicRatchet [] symbolicPair.publicKey).encrypt symbolicRatchet
    [7] (List.replicate 32 1) [0]).2.getD symbolicMessage

def answeredRatchet : Ratchet (KeyTerm Bytes Bytes Bytes) := (askedRatchet.decrypt symbolicRatchet answer 1).1

theorem chains_of_called_answered :
    (askedRatchet.decrypt symbolicRatchet answer 1).2 = some [7] ∧
      answeredRatchet.receiverKeys = [answer.ratchetKey] ∧ answeredRatchet.senderChain.toList = [] ∧
      answeredRatchet.senderChain.toList.length ≤ 1 ∧ answeredRatchet.receiverChains.toList.length ≤ 5 ∧
      answeredRatchet.skippedMessageKeys.toList.length ≤ 40 ∧ answeredRatchet.receiverKeys.Nodup ∧
      (answeredRatchet.senderChain.toList ≠ [] ∨ answeredRatchet.receiverChains.toList ≠ []) ∧
      (answeredRatchet.senderChain.empty → answeredRatchet.receiverChains.toList ≠ []) ∧
      ∀ reader maxPlaintextLength plaintext,
        findChain reader.ratchetKey askedRatchet.receiverChains.toList = none →
          verifyMacAndDecryptForNewChain symbolicRatchet askedRatchet reader maxPlaintextLength = some plaintext →
            askedRatchet.senderChain.toList ≠ [] := by
  have asked : Called symbolicRatchet askedRatchet := .encrypt (.alice _ _ _) [104] [] [0]
  have answered : Called symbolicRatchet answeredRatchet := asked.decrypt answer 1
  obtain ⟨sender, receivers, skipped, distinct, someChain, first, -⟩ := chains_of_called answered
  obtain ⟨-, -, -, -, -, -, committed⟩ := chains_of_called asked
  exact ⟨by decide +kernel, by decide +kernel, by decide +kernel, sender, receivers, skipped, distinct, someChain,
    first, committed⟩

end RubyOlm.Ratchet
