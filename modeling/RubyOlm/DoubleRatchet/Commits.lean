import RubyOlm.DoubleRatchet.Chains

/-!
# What a decryption commits

`decrypt` derives the keys of a message twice: on copies, to verify it, and then in place, to move the chain on. Both
come to the same places of one chain, and everything else stays as it was.
-/

namespace RubyOlm.Ratchet

variable {Key Msg : Type} (ops : RatchetOps Key Msg)

/-! ### The places of a chain -/

section Places

variable (start : ChainKey Key) (place : Nat)

/-- The chain key of a place, by as many steps as it is away from the start. -/
def chainKeyOf : Key := ops.chain chainKeySeed (place - start.index.toNat) start.key

def messageKeyOf : MessageKey Key := ⟨UInt32.ofNat place, ops.hmac (chainKeyOf ops start place) messageKeySeed⟩

/-- The message keys from the start up to a place, last one first. -/
def keysBefore (ratchetKey : PublicKey) : List (SkippedMessageKey Key) :=
  (List.range' start.index.toNat (place - start.index.toNat)).reverse.map fun earlier =>
    ⟨ratchetKey, messageKeyOf ops start earlier⟩

end Places

theorem skippedFrom_eq (chain : ReceiverChain Key) (count : Nat) : skippedFrom ops chain count =
    keysBefore ops chain.chainKey (chain.chainKey.index.toNat + count) chain.ratchetKey := by
  unfold skippedFrom keysBefore
  rw [Nat.add_sub_cancel_left, List.range'_eq_map_range, ← List.map_reverse, List.map_map]
  apply List.map_congr_left
  intro distance _
  simp only [Function.comp, messageKeyOf, chainKeyOf, messageKeyAt, Nat.add_sub_cancel_left, UInt32.ofNat_add,
    UInt32.ofNat_toNat]

theorem chainKeyOf_add (start : ChainKey Key) (count : Nat) :
    chainKeyOf ops start (start.index.toNat + count) = ops.chain chainKeySeed count start.key := by
  rw [chainKeyOf, Nat.add_sub_cancel_left]

theorem messageKeyOf_add (start : ChainKey Key) (count : Nat) :
    (messageKeyOf ops start (start.index.toNat + count)).key = messageKeyAt ops start.key count := by
  rw [messageKeyOf, chainKeyOf_add, messageKeyAt]

/-- The chain for a ratchet key. -/
def chainFor (ratchet : Ratchet Key) (ratchetKey : PublicKey) : Option (ChainKey Key) :=
  (ratchet.receiverChains.toList.find? fun chain => chain.ratchetKey = ratchetKey).map ReceiverChain.chainKey

/-- Where the chain for a ratchet key is, or would begin. -/
def startFor (ratchet : Ratchet Key) (ratchetKey : PublicKey) : ChainKey Key :=
  (ratchet.chainFor ratchetKey).getD (createChainKey ops ratchet.rootKey ratchet.sender.ratchetKey ratchetKey).2

theorem find?_chain (ratchetKey : PublicKey) (chains : List (ReceiverChain Key)) :
    (chains.find? fun chain => chain.ratchetKey = ratchetKey) = (findChain ratchetKey chains).map Prod.snd := by
  induction chains with
  | nil => rfl
  | cons first rest ih =>
    rw [findChain, List.find?_cons]
    by_cases same : first.ratchetKey = ratchetKey
    · rw [if_pos same, decide_eq_true same]
      rfl
    · rw [if_neg same, decide_eq_false same, Option.map_map]
      exact ih

/-- A change of the chain that was found is a change of every chain under its key. -/
theorem set_eq_map {ratchetKey : PublicKey} {chains : List (ReceiverChain Key)} {pos : Nat} {chain : ReceiverChain Key}
    (distinct : (chains.map ReceiverChain.ratchetKey).Nodup) (found : findChain ratchetKey chains = some (pos, chain))
    (moved : ReceiverChain Key) :
    chains.set pos moved = chains.map fun other => if other.ratchetKey = ratchetKey then moved else other := by
  induction chains generalizing pos with
  | nil => cases found
  | cons first rest ih =>
    obtain ⟨fresh, distinct⟩ := List.nodup_cons.mp distinct
    rw [findChain] at found
    split at found
    · rename_i same
      obtain ⟨rfl, rfl⟩ := Prod.mk.inj (Option.some.inj found)
      rw [List.set_cons_zero, List.map_cons, if_pos same]
      have others : (rest.map fun other => if other.ratchetKey = ratchetKey then moved else other) = rest := by
        refine (List.map_congr_left ?_).trans (List.map_id rest)
        intro other listed
        refine if_neg ?_
        rintro rfl
        exact fresh (List.mem_map.mpr ⟨other, listed, same.symm⟩)
      rw [others]
    · rename_i other
      obtain ⟨⟨pos', chain'⟩, later, same⟩ := Option.map_eq_some_iff.mp found
      obtain ⟨rfl, rfl⟩ := Prod.mk.inj same
      rw [List.set_cons_succ, List.map_cons, if_neg other, ih distinct later]

theorem find?_moved {ratchetKey : PublicKey} {chains : List (ReceiverChain Key)}
    (known : (chains.find? fun chain => chain.ratchetKey = ratchetKey) ≠ none) (chainKey : ChainKey Key) :
    ((chains.map fun other => if other.ratchetKey = ratchetKey then ⟨ratchetKey, chainKey⟩ else other).find? fun chain =>
      chain.ratchetKey = ratchetKey) = some ⟨ratchetKey, chainKey⟩ := by
  induction chains with
  | nil => exact absurd rfl known
  | cons first rest ih =>
    rw [List.map_cons, List.find?_cons]
    by_cases here : first.ratchetKey = ratchetKey
    · rw [if_pos here, decide_eq_true rfl]
    · rw [if_neg here, decide_eq_false here]
      rw [List.find?_cons, decide_eq_false here] at known
      exact ih known

/-! ### The two ends of a decryption -/

variable (ratchet : Ratchet Key) (ratchetKey : PublicKey) (counter : UInt32) (opens : Key → Prop) (ratchet' : Ratchet Key)

/-- A message at its chain's place or further on: the chain stands behind it, and the keys in between are kept. -/
structure Advanced (start : ChainKey Key) : Prop where
  opened : opens (messageKeyOf ops start counter.toNat).key
  chain : ratchet'.chainFor ratchetKey = some ⟨counter + 1, chainKeyOf ops start (counter.toNat + 1)⟩
  skipped : ratchet'.skippedMessageKeys.toList =
    (keysBefore ops start counter.toNat ratchetKey ++ ratchet.skippedMessageKeys.toList).take maxSkippedMessageKeys
  known : ratchet.chainFor ratchetKey ≠ none →
    ratchet'.rootKey = ratchet.rootKey ∧ ratchet'.senderChain = ratchet.senderChain ∧
      ratchet'.receiverChains.toList = ratchet.receiverChains.toList.map fun other =>
        if other.ratchetKey = ratchetKey then ⟨ratchetKey, counter + 1, chainKeyOf ops start (counter.toNat + 1)⟩ else other
  fresh : ratchet.chainFor ratchetKey = none →
    ratchet'.rootKey = (createChainKey ops ratchet.rootKey ratchet.sender.ratchetKey ratchetKey).1 ∧
      ratchet'.senderChain.toList = [] ∧
      ratchet'.receiverChains.toList =
        (⟨ratchetKey, counter + 1, chainKeyOf ops start (counter.toNat + 1)⟩ :: ratchet.receiverChains.toList).take
          maxReceiverChains

/-- A message that its chain has passed: the key that was kept for it is gone. -/
structure Redeemed : Prop where
  removed : ∃ pos key, ratchet.skippedMessageKeys.toList[pos]? = some key ∧ key.ratchetKey = ratchetKey ∧
    key.messageKey.index = counter ∧ opens key.messageKey.key ∧
    ratchet'.skippedMessageKeys.toList = ratchet.skippedMessageKeys.toList.eraseIdx pos
  same : ratchet'.lastError = ratchet.lastError ∧ ratchet'.rootKey = ratchet.rootKey ∧
    ratchet'.senderChain = ratchet.senderChain ∧ ratchet'.receiverChains = ratchet.receiverChains

variable {ratchet ratchetKey counter opens ratchet'} {reader : CheckedReader Msg} {maxPlaintextLength : Nat}
  {plaintext : Bytes}

theorem decryptChecked_behind {pos : Nat} {chain : ReceiverChain Key}
    (found : findChain reader.ratchetKey ratchet.receiverChains.toList = some (pos, chain))
    (behind : reader.counter < chain.chainKey.index)
    (done : ratchet.decryptChecked ops reader maxPlaintextLength = (ratchet', some plaintext)) :
    Redeemed ratchet reader.ratchetKey reader.counter (Opens ops · reader maxPlaintextLength plaintext) ratchet' := by
  obtain ⟨place, tried, rfl⟩ := decryptChecked_tried ops found behind done
  obtain ⟨key, stored, counter, own, opened⟩ := trySkipped_eq_some ops tried
  exact ⟨⟨place, key, stored, own, counter.symm, opened,
    toList_removeSkipped ops (List.getElem?_eq_some_iff.mp stored).1⟩, rfl, rfl, rfl, rfl⟩

theorem Decrypted.advanced (distinct : ratchet.receiverKeys.Nodup)
    (decrypted : Decrypted ops ratchet reader maxPlaintextLength plaintext ratchet')
    (reached : (ratchet.startFor ops reader.ratchetKey).index ≤ reader.counter) :
    Advanced ops ratchet reader.ratchetKey reader.counter (Opens ops · reader maxPlaintextLength plaintext) ratchet'
      (ratchet.startFor ops reader.ratchetKey) := by
  cases decrypted with
  | newChain rootKey chainKey unknown created turn opened root sender receivers skipped =>
    have none : ratchet.chainFor reader.ratchetKey = none := by
      rw [chainFor, find?_chain, unknown]
      rfl
    have start : ratchet.startFor ops reader.ratchetKey = chainKey := by
      rw [startFor, none, Option.getD_none, created]
    have index : chainKey.index = 0 := congrArg (fun derived => derived.2.index) created.symm
    have place : reader.counter.toNat = chainKey.index.toNat + reader.counter.toNat := by
      rw [index, UInt32.toNat_zero, Nat.zero_add]
    have next : reader.counter.toNat + 1 = chainKey.index.toNat + (reader.counter.toNat + 1) := by
      rw [index, UInt32.toNat_zero, Nat.zero_add]
    rw [← messageKeyOf_add, ← place] at opened
    rw [← chainKeyOf_add, ← next] at receivers
    rw [skippedFrom_eq, ← place] at skipped
    rw [start]
    refine ⟨opened, ?_, skipped, fun known => absurd none known, fun _ => ⟨?_, sender, receivers⟩⟩
    · have first := receivers.trans (List.take_succ_cons (i := 4))
      rw [chainFor, first, List.find?_cons, decide_eq_true rfl]
      rfl
    · rw [root, created]
  | liveChain pos chain count found ahead opened root sender receivers skipped =>
    obtain ⟨-, own⟩ := findChain_eq_some found
    have known : (ratchet.receiverChains.toList.find? fun chain => chain.ratchetKey = reader.ratchetKey) = some chain := by
      rw [find?_chain, found]
      rfl
    have live : ratchet.chainFor reader.ratchetKey = some chain.chainKey := by
      rw [chainFor, known]
      rfl
    have start : ratchet.startFor ops reader.ratchetKey = chain.chainKey := by
      rw [startFor, live, Option.getD_some]
    rw [← messageKeyOf_add, ← ahead] at opened
    rw [← chainKeyOf_add, ← Nat.add_assoc, ← ahead, set_eq_map distinct found] at receivers
    rw [skippedFrom_eq, ← ahead, own] at skipped
    rw [start]
    refine ⟨opened, ?_, skipped, fun _ => ⟨root, sender, receivers⟩, fun none => ?_⟩
    · rw [chainFor, receivers, find?_moved (by rw [known]; exact Option.some_ne_none _)]
      rfl
    · rw [live] at none
      cases none
  | skippedKey pos key behind =>
    obtain ⟨⟨pos, chain⟩, found, behind⟩ := behind
    have start : ratchet.startFor ops reader.ratchetKey = chain.chainKey := by
      rw [startFor, chainFor, find?_chain, found]
      rfl
    rw [start] at reached
    exact absurd behind (UInt32.not_lt.mpr reached)

/-- Whatever the cipher accepts and the hash functions give: what was verified is what is committed. -/
theorem decrypt_commits {input : Msg} (distinct : ratchet.receiverKeys.Nodup)
    (done : ratchet.decrypt ops input maxPlaintextLength = (ratchet', some plaintext)) :
    ∃ ratchetKey counter ciphertext, (ops.wire.read input).ratchetKey = some ratchetKey.val ∧
      (ops.wire.read input).counter = ⟨counter, true⟩ ∧ (ops.wire.read input).ciphertext = some ciphertext ∧
      ((ratchet.startFor ops ratchetKey).index ≤ counter →
        Advanced ops ratchet ratchetKey counter
          (fun key => ops.wire.decrypt key input ciphertext maxPlaintextLength = some plaintext) ratchet'
          (ratchet.startFor ops ratchetKey)) ∧
      (counter < (ratchet.startFor ops ratchetKey).index →
        Redeemed ratchet ratchetKey counter
          (fun key => ops.wire.decrypt key input ciphertext maxPlaintextLength = some plaintext) ratchet') := by
  obtain ⟨reader, checked, decrypted⟩ := decrypt_eq_some ops done
  obtain ⟨counter, ratchetKey, ciphertext, rfl, -⟩ := checkReader_eq_ok ops checked
  rw [decrypt, checked] at done
  refine ⟨reader.ratchetKey, reader.counter, reader.ciphertext, ratchetKey, counter, ciphertext,
    decrypted.advanced ops distinct, ?_⟩
  intro behind
  cases found : findChain reader.ratchetKey ratchet.receiverChains.toList with
  | none =>
    rw [startFor, chainFor, find?_chain, found] at behind
    exact absurd behind (UInt32.not_lt.mpr UInt32.zero_le)
  | some place =>
    rw [startFor, chainFor, find?_chain, found] at behind
    exact decryptChecked_behind ops found behind done

/-- The second message of a chain before the first: the key of the first is kept. -/
theorem decrypt_commits_second :
    ∃ ratchet', (((new (clearedRatchet .zero)).initialiseAsBob symbolicRatchet [] symbolicPair.publicKey).decrypt
        symbolicRatchet ⟨.hmac (.hmac (.extract false [] [0]) [2]) [1], 1, symbolicPair.publicKey, [104]⟩ 1) =
        (ratchet', some [104]) ∧
      ratchet'.skippedMessageKeys.toList =
        [⟨symbolicPair.publicKey, 0, .hmac (.extract false [] [0]) [1]⟩] ∧
      ratchet'.chainFor symbolicPair.publicKey = some ⟨2, .hmac (.hmac (.extract false [] [0]) [2]) [2]⟩ := by
  have receivers := initialiseAsBob_receivers symbolicRatchet (clearedRatchet .zero) [] symbolicPair.publicKey
  have distinct :
      ((new (clearedRatchet .zero)).initialiseAsBob symbolicRatchet [] symbolicPair.publicKey).receiverKeys.Nodup := by
    rw [receiverKeys, receivers]
    exact List.nodup_singleton _
  obtain ⟨ratchet', done⟩ : ∃ ratchet', (((new (clearedRatchet .zero)).initialiseAsBob symbolicRatchet []
      symbolicPair.publicKey).decrypt symbolicRatchet
        ⟨.hmac (.hmac (.extract false [] [0]) [2]) [1], 1, symbolicPair.publicKey, [104]⟩ 1) =
      (ratchet', some [104]) := ⟨_, rfl⟩
  refine ⟨ratchet', done, ?_⟩
  obtain ⟨ratchetKey, counter, ciphertext, key, number, -, ahead, -⟩ := decrypt_commits symbolicRatchet distinct done
  obtain rfl : symbolicPair.publicKey = ratchetKey := Subtype.ext (Option.some.inj key)
  obtain rfl : 1 = counter := congrArg IntField.value number
  have advanced := ahead (by decide)
  exact ⟨advanced.skipped, advanced.chain⟩

end RubyOlm.Ratchet
