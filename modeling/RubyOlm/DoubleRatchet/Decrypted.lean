import RubyOlm.DoubleRatchet.Ratchet

/-!
# What the calls of a ratchet do

`decrypt` verifies before it changes anything and then takes one of three routes. Each route is
described by what it does to the live entries of the lists.
-/

namespace RubyOlm.Ratchet

variable {Key Msg : Type} (ops : RatchetOps Key Msg)

/-! ### Loops over a chain -/

def messageKeyAt (chainKey : Key) (distance : Nat) : Key :=
  ops.hmac (ops.chain chainKeySeed distance chainKey) messageKeySeed

theorem index_eq_of_turns {chainKey : ChainKey Key} {counter : UInt32} (le : chainKey.index ≤ counter)
    (none : turns chainKey counter = 0) : chainKey.index = counter := by
  rw [UInt32.le_iff_toNat_le] at le
  unfold turns at none
  exact UInt32.toNat_inj.mp (by omega)

theorem turn_of_turns {chainKey : ChainKey Key} {counter : UInt32} {fuel : Nat}
    (some : turns chainKey counter = fuel + 1) :
    chainKey.index < counter ∧ (advanceChainKey ops chainKey).index ≤ counter ∧
      turns (advanceChainKey ops chainKey) counter = fuel := by
  unfold turns at some ⊢
  have := counter.toNat_lt
  have next : (chainKey.index + 1).toNat = chainKey.index.toNat + 1 := by
    rw [UInt32.toNat_add, UInt32.toNat_one]
    omega
  simp only [advanceChainKey, UInt32.lt_iff_toNat_lt, UInt32.le_iff_toNat_le, next]
  omega

theorem advanceWhile_eq (counter : UInt32) (chainKey : ChainKey Key) (le : chainKey.index ≤ counter) :
    advanceWhile ops counter (turns chainKey counter) chainKey =
      ⟨counter, ops.chain chainKeySeed (turns chainKey counter) chainKey.key⟩ := by
  generalize count : turns chainKey counter = fuel
  induction fuel generalizing chainKey with
  | zero =>
    rw [advanceWhile, ← index_eq_of_turns le count]
    rfl
  | succ fuel ih =>
    obtain ⟨lt, le', rest⟩ := turn_of_turns ops count
    rw [advanceWhile, if_pos lt, ih _ le' rest]
    simp only [advanceChainKey]
    rw [ops.chain_hmac]

/-- The keys that a chain has on its next `count` places, last one first. -/
def skippedFrom (chain : ReceiverChain Key) (count : Nat) : List (SkippedMessageKey Key) :=
  (List.range count).reverse.map fun distance =>
    ⟨chain.ratchetKey, chain.chainKey.index + UInt32.ofNat distance,
      messageKeyAt ops chain.chainKey.key distance⟩

theorem skippedFrom_succ (chain : ReceiverChain Key) (count : Nat) :
    skippedFrom ops chain (count + 1) =
      skippedFrom ops { chain with chainKey := advanceChainKey ops chain.chainKey } count ++
        [⟨chain.ratchetKey, createMessageKeys ops chain.chainKey⟩] := by
  simp only [skippedFrom, List.range_succ_eq_map, List.reverse_cons, List.map_append, ← List.map_reverse,
    List.map_map, List.map_cons, List.map_nil]
  congr 1
  · apply List.map_congr_left
    intro distance _
    simp only [Function.comp, advanceChainKey, messageKeyAt, ops.chain_hmac, Nat.succ_eq_add_one,
      UInt32.ofNat_add]
    rw [UInt32.add_assoc, UInt32.add_comm 1]
    rfl
  · simp [createMessageKeys, messageKeyAt]

theorem skipWhile_eq (counter : UInt32) (chain : ReceiverChain Key)
    (skipped : OlmList (SkippedMessageKey Key) maxSkippedMessageKeys) (le : chain.chainKey.index ≤ counter) :
    (skipWhile ops counter (turns chain.chainKey counter) chain skipped).1 =
        { chain with chainKey :=
            ⟨counter, ops.chain chainKeySeed (turns chain.chainKey counter) chain.chainKey.key⟩ } ∧
      (skipWhile ops counter (turns chain.chainKey counter) chain skipped).2.toList =
        (skippedFrom ops chain (turns chain.chainKey counter) ++ skipped.toList).take maxSkippedMessageKeys := by
  generalize count : turns chain.chainKey counter = fuel
  induction fuel generalizing chain skipped with
  | zero =>
    refine ⟨?_, ?_⟩
    · rw [skipWhile, ← index_eq_of_turns le count]
      rfl
    · rw [skipWhile, skippedFrom, List.range_zero, List.reverse_nil, List.map_nil, List.nil_append,
        OlmList.take_toList]
  | succ fuel ih =>
    obtain ⟨lt, le', rest⟩ := turn_of_turns ops count
    obtain ⟨moved, stored⟩ := ih { chain with chainKey := advanceChainKey ops chain.chainKey }
      (skipped.pushFront ⟨chain.ratchetKey, createMessageKeys ops chain.chainKey⟩) le' rest
    rw [skipWhile, if_pos lt]
    refine ⟨?_, ?_⟩
    · rw [moved]
      simp only [advanceChainKey]
      rw [ops.chain_hmac]
    · rw [stored, OlmList.toList_pushFront _ _ (by decide), OlmList.take_append_take, skippedFrom_succ,
        List.append_assoc, List.singleton_append]

/-! ### Searches -/

theorem findChain_eq_some {ratchetKey : PublicKey} {chains : List (ReceiverChain Key)} {pos : Nat}
    {chain : ReceiverChain Key} (found : findChain ratchetKey chains = some (pos, chain)) :
    chains[pos]? = some chain ∧ chain.ratchetKey = ratchetKey := by
  induction chains generalizing pos with
  | nil => cases found
  | cons first rest ih =>
    rw [findChain] at found
    split at found
    · rename_i same
      obtain ⟨rfl, rfl⟩ := Prod.mk.inj (Option.some.inj found)
      exact ⟨rfl, same⟩
    · obtain ⟨⟨pos', chain'⟩, later, same⟩ := Option.map_eq_some_iff.mp found
      obtain ⟨rfl, rfl⟩ := Prod.mk.inj same
      exact ih later

theorem findChain_eq_none {ratchetKey : PublicKey} {chains : List (ReceiverChain Key)} :
    findChain ratchetKey chains = none ↔ ∀ chain ∈ chains, chain.ratchetKey ≠ ratchetKey := by
  induction chains with
  | nil => simp [findChain]
  | cons first rest ih =>
    rw [findChain]
    split <;> simp_all

theorem trySkipped_eq_some {reader : CheckedReader Msg} {maxPlaintextLength : Nat}
    {skipped : List (SkippedMessageKey Key)} {pos : Nat} {plaintext : Bytes}
    (found : trySkipped ops reader maxPlaintextLength skipped = some (pos, plaintext)) :
    ∃ key, skipped[pos]? = some key ∧ reader.counter = key.messageKey.index ∧
      key.ratchetKey = reader.ratchetKey ∧
      verifyMacAndDecrypt ops key.messageKey reader maxPlaintextLength = some plaintext := by
  induction skipped generalizing pos with
  | nil => cases found
  | cons first rest ih =>
    rw [trySkipped] at found
    split at found
    · rename_i opened
      split at opened
      · rename_i same
        obtain ⟨rfl, rfl⟩ := Prod.mk.inj (Option.some.inj found)
        exact ⟨first, rfl, same.1, same.2, opened⟩
      · cases opened
    · obtain ⟨⟨pos', plaintext'⟩, later, same⟩ := Option.map_eq_some_iff.mp found
      obtain ⟨rfl, rfl⟩ := Prod.mk.inj same
      exact ih later

theorem trySkipped_eq_none {reader : CheckedReader Msg} {maxPlaintextLength : Nat}
    {skipped : List (SkippedMessageKey Key)} (none : trySkipped ops reader maxPlaintextLength skipped = none)
    {key : SkippedMessageKey Key} (mem : key ∈ skipped) (index : reader.counter = key.messageKey.index)
    (ratchetKey : key.ratchetKey = reader.ratchetKey) :
    verifyMacAndDecrypt ops key.messageKey reader maxPlaintextLength = .none := by
  induction skipped with
  | nil => cases mem
  | cons first rest ih =>
    rw [trySkipped] at none
    split at none
    · cases none
    · rename_i failed
      rcases List.mem_cons.mp mem with rfl | later
      · rwa [if_pos ⟨index, ratchetKey⟩] at failed
      · exact ih (Option.map_eq_none_iff.mp none) later

/-! ### Verification -/

/-- The message was written with `key`, as far as decrypting can tell. -/
def Opens (key : Key) (reader : CheckedReader Msg) (maxPlaintextLength : Nat) (plaintext : Bytes) : Prop :=
  ops.wire.decrypt key reader.input reader.ciphertext maxPlaintextLength = some plaintext

theorem toNat_sub_eq_turns {chainKey : ChainKey Key} {counter : UInt32} (le : chainKey.index ≤ counter) :
    (counter - chainKey.index).toNat = turns chainKey counter := UInt32.toNat_sub_of_le _ _ le

theorem verifyExistingChain_eq_some_iff {chainKey : ChainKey Key} {reader : CheckedReader Msg}
    {maxPlaintextLength : Nat} {plaintext : Bytes} :
    verifyMacAndDecryptForExistingChain ops chainKey reader maxPlaintextLength = some plaintext ↔
      chainKey.index ≤ reader.counter ∧ turns chainKey reader.counter ≤ maxMessageGap ∧
        Opens ops (messageKeyAt ops chainKey.key (turns chainKey reader.counter)) reader maxPlaintextLength
          plaintext := by
  unfold verifyMacAndDecryptForExistingChain
  split
  · rename_i behind
    simp only [reduceCtorEq, false_iff, not_and]
    intro le
    rw [UInt32.le_iff_toNat_le] at le
    rw [UInt32.lt_iff_toNat_lt] at behind
    omega
  · rename_i ahead
    have le : chainKey.index ≤ reader.counter := by
      rw [UInt32.le_iff_toNat_le]
      rw [UInt32.lt_iff_toNat_lt] at ahead
      omega
    rw [toNat_sub_eq_turns le]
    split
    · rename_i far
      simp only [reduceCtorEq, false_iff, not_and]
      intro _ near
      omega
    · rename_i near
      rw [advanceWhile_eq ops _ _ le]
      exact ⟨fun opened => ⟨le, by omega, opened⟩, fun opened => opened.2.2⟩

theorem verifyNewChain_eq_some_iff {ratchet : Ratchet Key} {reader : CheckedReader Msg}
    {maxPlaintextLength : Nat} {plaintext : Bytes} :
    verifyMacAndDecryptForNewChain ops ratchet reader maxPlaintextLength = some plaintext ↔
      ratchet.senderChain.toList ≠ [] ∧ reader.counter.toNat ≤ maxMessageGap ∧
        Opens ops
          (messageKeyAt ops (createChainKey ops ratchet.rootKey ratchet.sender.ratchetKey reader.ratchetKey).2.key
            reader.counter.toNat) reader maxPlaintextLength plaintext := by
  unfold verifyMacAndDecryptForNewChain
  split
  · rename_i none
    simp [(OlmList.empty_iff _).mp none]
  · rename_i some
    rw [OlmList.empty_iff] at some
    split
    · rename_i far
      simp only [reduceCtorEq, false_iff, not_and]
      intro _ near
      omega
    · rename_i near
      simp only [verifyExistingChain_eq_some_iff]
      simp only [createChainKey, turns, UInt32.le_iff_toNat_le, UInt32.toNat_zero, Nat.sub_zero, Nat.zero_le,
        true_and]
      exact ⟨fun opened => ⟨some, opened⟩, fun opened => opened.2⟩

/-! ### Decryption -/

theorem checkReader_eq_ok {input : Msg} {maxPlaintextLength : Nat} {reader : CheckedReader Msg}
    (checked : checkReader ops input maxPlaintextLength = .ok reader) :
    (ops.wire.read input).counter = ⟨reader.counter, true⟩ ∧
      (ops.wire.read input).ratchetKey = some reader.ratchetKey.val ∧
      (ops.wire.read input).ciphertext = some reader.ciphertext ∧ reader.input = input ∧
      ops.wire.maxPlaintextLength reader.ciphertext.length ≤ maxPlaintextLength := by
  unfold checkReader at checked
  generalize ops.wire.read input = reading at checked ⊢
  obtain ⟨version, ⟨counter, has⟩, ratchetKey, ciphertext⟩ := reading
  simp only at checked
  split at checked
  · cases checked
  · split at checked
    · rename_i key text
      split at checked
      · cases checked
      · rename_i room
        split at checked
        · cases checked
        · rename_i length
          rw [ne_eq, not_not] at length
          obtain rfl := Except.ok.inj checked
          -- a key of its own length is loaded whole
          have whole : key = (Block.load 32 key).val :=
            congrArg Subtype.val (Block.load_val ⟨key, length⟩).symm
          exact ⟨rfl, congrArg some whole, rfl, rfl, Nat.le_of_not_lt room⟩
    · cases checked

/-- What a successful `decrypt` has done, by the route it took. -/
inductive Decrypted (ratchet : Ratchet Key) (reader : CheckedReader Msg) (maxPlaintextLength : Nat)
    (plaintext : Bytes) (ratchet' : Ratchet Key) : Prop
  | newChain (rootKey : Key) (chainKey : ChainKey Key)
      (unknown : findChain reader.ratchetKey ratchet.receiverChains.toList = none)
      (created : createChainKey ops ratchet.rootKey ratchet.sender.ratchetKey reader.ratchetKey = (rootKey, chainKey))
      (turn : ratchet.senderChain.toList ≠ [])
      (opened : Opens ops (messageKeyAt ops chainKey.key reader.counter.toNat) reader maxPlaintextLength plaintext)
      (root : ratchet'.rootKey = rootKey)
      (sender : ratchet'.senderChain.toList = [])
      (receivers : ratchet'.receiverChains.toList =
        (⟨reader.ratchetKey, reader.counter + 1,
          ops.chain chainKeySeed (reader.counter.toNat + 1) chainKey.key⟩ ::
            ratchet.receiverChains.toList).take maxReceiverChains)
      (skipped : ratchet'.skippedMessageKeys.toList =
        (skippedFrom ops ⟨reader.ratchetKey, chainKey⟩ reader.counter.toNat ++
          ratchet.skippedMessageKeys.toList).take maxSkippedMessageKeys)
  | liveChain (pos : Nat) (chain : ReceiverChain Key) (count : Nat)
      (found : findChain reader.ratchetKey ratchet.receiverChains.toList = some (pos, chain))
      (ahead : reader.counter.toNat = chain.chainKey.index.toNat + count)
      (opened : Opens ops (messageKeyAt ops chain.chainKey.key count) reader maxPlaintextLength plaintext)
      (root : ratchet'.rootKey = ratchet.rootKey)
      (sender : ratchet'.senderChain = ratchet.senderChain)
      (receivers : ratchet'.receiverChains.toList = ratchet.receiverChains.toList.set pos
        ⟨reader.ratchetKey, reader.counter + 1, ops.chain chainKeySeed (count + 1) chain.chainKey.key⟩)
      (skipped : ratchet'.skippedMessageKeys.toList =
        (skippedFrom ops chain count ++ ratchet.skippedMessageKeys.toList).take maxSkippedMessageKeys)
  | skippedKey (pos : Nat) (key : SkippedMessageKey Key)
      (behind : ∃ found, findChain reader.ratchetKey ratchet.receiverChains.toList = some found ∧
        reader.counter < found.2.chainKey.index)
      (stored : ratchet.skippedMessageKeys.toList[pos]? = some key)
      (opened : Opens ops key.messageKey.key reader maxPlaintextLength plaintext)
      (root : ratchet'.rootKey = ratchet.rootKey)
      (sender : ratchet'.senderChain = ratchet.senderChain)
      (receivers : ratchet'.receiverChains = ratchet.receiverChains)
      (skipped : ratchet'.skippedMessageKeys.toList = ratchet.skippedMessageKeys.toList.eraseIdx pos)

theorem moveChain_eq (ratchet : Ratchet Key) (pos : Nat) {chain : ReceiverChain Key} {counter : UInt32}
    (le : chain.chainKey.index ≤ counter) :
    (ratchet.moveChain ops pos chain counter).rootKey = ratchet.rootKey ∧
      (ratchet.moveChain ops pos chain counter).senderChain = ratchet.senderChain ∧
      (ratchet.moveChain ops pos chain counter).receiverChains.toList = ratchet.receiverChains.toList.set pos
        ⟨chain.ratchetKey, counter + 1,
          ops.chain chainKeySeed (turns chain.chainKey counter + 1) chain.chainKey.key⟩ ∧
      (ratchet.moveChain ops pos chain counter).skippedMessageKeys.toList =
        (skippedFrom ops chain (turns chain.chainKey counter) ++
          ratchet.skippedMessageKeys.toList).take maxSkippedMessageKeys := by
  obtain ⟨moved, stored⟩ := skipWhile_eq ops counter chain ratchet.skippedMessageKeys le
  refine ⟨rfl, rfl, ?_, stored⟩
  unfold moveChain
  simp only
  rw [OlmList.toList_set, moved]
  simp only [advanceChainKey]
  rw [ops.chain_succ]

theorem toList_removeSkipped {ratchet : Ratchet Key} {pos : Nat}
    (live : pos < ratchet.skippedMessageKeys.toList.length) :
    (ratchet.removeSkipped ops pos).skippedMessageKeys.toList =
      ratchet.skippedMessageKeys.toList.eraseIdx pos := by
  rw [OlmList.length_toList] at live
  unfold removeSkipped
  simp only
  rw [OlmList.toList_erase, OlmList.toList_set, List.eraseIdx_set_eq]
  exact live

theorem startReceiverChain_eq {ratchet : Ratchet Key} (ratchetKey : PublicKey) (turn : ratchet.senderChain.toList ≠ []) :
    (ratchet.startReceiverChain ops ratchetKey).rootKey =
        (createChainKey ops ratchet.rootKey ratchet.sender.ratchetKey ratchetKey).1 ∧
      (ratchet.startReceiverChain ops ratchetKey).senderChain.toList = [] ∧
      (ratchet.startReceiverChain ops ratchetKey).receiverChains.toList =
        (⟨ratchetKey, (createChainKey ops ratchet.rootKey ratchet.sender.ratchetKey ratchetKey).2⟩ ::
          ratchet.receiverChains.toList).take maxReceiverChains ∧
      (ratchet.startReceiverChain ops ratchetKey).skippedMessageKeys = ratchet.skippedMessageKeys := by
  have length := ratchet.senderChain.size_le
  have live : 0 < ratchet.senderChain.size := by
    rw [← OlmList.length_toList]
    exact List.length_pos_iff.mpr turn
  refine ⟨rfl, ?_, OlmList.toList_pushFront _ _ (by decide), rfl⟩
  unfold startReceiverChain
  simp only
  rw [OlmList.toList_erase, OlmList.toList_set, List.eraseIdx_set_eq, ← List.length_eq_zero_iff,
    List.length_eraseIdx_of_lt (by simpa using live), OlmList.length_toList]
  · exact Nat.sub_eq_zero_of_le length
  · exact live

theorem decryptChecked_newChain {ratchet : Ratchet Key} {reader : CheckedReader Msg} {maxPlaintextLength : Nat}
    {plaintext : Bytes} (unknown : findChain reader.ratchetKey ratchet.receiverChains.toList = none)
    (verified : verifyMacAndDecryptForNewChain ops ratchet reader maxPlaintextLength = some plaintext) :
    Decrypted ops ratchet reader maxPlaintextLength plaintext
      ((ratchet.startReceiverChain ops reader.ratchetKey).moveChain ops 0
        (ratchet.startReceiverChain ops reader.ratchetKey).receiver reader.counter) := by
  obtain ⟨turn, -, opened⟩ := (verifyNewChain_eq_some_iff ops).mp verified
  obtain ⟨root, sender, receivers, skipped⟩ := startReceiverChain_eq ops reader.ratchetKey turn
  rcases created : createChainKey ops ratchet.rootKey ratchet.sender.ratchetKey reader.ratchetKey with
    ⟨rootKey, index, key⟩
  obtain rfl : 0 = index := congrArg (fun derived => derived.2.index) created
  rw [created] at opened root receivers
  have receivers_cons := receivers.trans (List.take_succ_cons (i := 4))
  have newest : (ratchet.startReceiverChain ops reader.ratchetKey).receiver = _ := OlmList.data_zero_eq (by decide) receivers_cons
  rw [newest]
  have from_zero (key : Key) : turns ⟨0, key⟩ reader.counter = reader.counter.toNat := by
    rw [turns, UInt32.toNat_zero, Nat.sub_zero]
  have le : (⟨reader.ratchetKey, 0, key⟩ : ReceiverChain Key).chainKey.index ≤ reader.counter := by
    rw [UInt32.le_iff_toNat_le]
    exact Nat.zero_le _
  obtain ⟨root', sender', receivers', skipped'⟩ :=
    moveChain_eq ops (ratchet.startReceiverChain ops reader.ratchetKey) 0 le
  rw [from_zero] at receivers' skipped'
  refine .newChain rootKey ⟨0, key⟩ unknown created turn opened (root'.trans root) (sender' ▸ sender) ?_
    (skipped ▸ skipped')
  rw [receivers', receivers_cons, List.set_cons_zero]
  rfl

theorem decrypt_eq_some {ratchet ratchet' : Ratchet Key} {input : Msg} {maxPlaintextLength : Nat}
    {plaintext : Bytes} (done : ratchet.decrypt ops input maxPlaintextLength = (ratchet', some plaintext)) :
    ∃ reader, checkReader ops input maxPlaintextLength = .ok reader ∧
      Decrypted ops ratchet reader maxPlaintextLength plaintext ratchet' := by
  unfold decrypt at done
  split at done
  · cases done
  · rename_i reader checked
    refine ⟨reader, checked, ?_⟩
    unfold decryptChecked at done
    split at done
    · rename_i unknown
      split at done
      · cases done
      · rename_i verified
        obtain ⟨rfl, same⟩ := Prod.mk.inj done
        obtain rfl := Option.some.inj same
        exact decryptChecked_newChain ops unknown verified
    · rename_i pos chain found
      split at done
      · rename_i behind
        split at done
        · cases done
        · rename_i place _ tried
          obtain ⟨rfl, same⟩ := Prod.mk.inj done
          obtain rfl := Option.some.inj same
          obtain ⟨key, stored, -, -, opened⟩ := trySkipped_eq_some ops tried
          exact .skippedKey place key ⟨_, found, behind⟩ stored opened rfl rfl rfl
            (toList_removeSkipped ops (List.getElem?_eq_some_iff.mp stored).1)
      · split at done
        · cases done
        · rename_i verified
          obtain ⟨rfl, same⟩ := Prod.mk.inj done
          obtain rfl := Option.some.inj same
          obtain ⟨le, -, opened⟩ := (verifyExistingChain_eq_some_iff ops).mp verified
          obtain ⟨root, sender, receivers, skipped⟩ := moveChain_eq ops ratchet pos le
          refine .liveChain pos chain (turns chain.chainKey reader.counter) found ?_ opened root sender ?_ skipped
          · rw [UInt32.le_iff_toNat_le] at le
            unfold turns
            omega
          · rw [receivers, (findChain_eq_some found).2]

/-- A message that its chain has passed is opened with the first skipped key that fits, which is removed. -/
theorem decryptChecked_tried {ratchet ratchet' : Ratchet Key} {reader : CheckedReader Msg} {maxPlaintextLength : Nat}
    {plaintext : Bytes} {pos : Nat} {chain : ReceiverChain Key}
    (found : findChain reader.ratchetKey ratchet.receiverChains.toList = some (pos, chain))
    (behind : reader.counter < chain.chainKey.index)
    (done : ratchet.decryptChecked ops reader maxPlaintextLength = (ratchet', some plaintext)) :
    ∃ place, trySkipped ops reader maxPlaintextLength ratchet.skippedMessageKeys.toList = some (place, plaintext) ∧
      ratchet' = ratchet.removeSkipped ops place := by
  simp only [decryptChecked, found, if_pos behind] at done
  split at done
  · cases done
  · rename_i place _ tried
    obtain ⟨rfl, same⟩ := Prod.mk.inj done
    obtain rfl := Option.some.inj same
    exact ⟨place, tried, rfl⟩

/-- A `decrypt` that fails sets the error and does nothing else. -/
theorem decrypt_eq_none {ratchet ratchet' : Ratchet Key} {input : Msg} {maxPlaintextLength : Nat}
    (failed : ratchet.decrypt ops input maxPlaintextLength = (ratchet', none)) :
    ratchet' = { ratchet with lastError := ratchet'.lastError } := by
  unfold decrypt at failed
  split at failed
  · obtain ⟨rfl, -⟩ := Prod.mk.inj failed
    rfl
  · unfold decryptChecked at failed
    split at failed <;> split at failed
    · obtain ⟨rfl, -⟩ := Prod.mk.inj failed
      rfl
    · cases failed
    · split at failed
      · obtain ⟨rfl, -⟩ := Prod.mk.inj failed
        rfl
      · cases failed
    · split at failed
      · obtain ⟨rfl, -⟩ := Prod.mk.inj failed
        rfl
      · cases failed

/-- The error is that of the check, or that no key fits the MAC. -/
theorem decrypt_error {ratchet ratchet' : Ratchet Key} {input : Msg} {maxPlaintextLength : Nat}
    (failed : ratchet.decrypt ops input maxPlaintextLength = (ratchet', none)) :
    checkReader ops input maxPlaintextLength = .error ratchet'.lastError ∨
      (∃ reader, checkReader ops input maxPlaintextLength = .ok reader) ∧ ratchet'.lastError = .badMessageMac := by
  unfold decrypt at failed
  cases checked : checkReader ops input maxPlaintextLength with
  | error error =>
    rw [checked] at failed
    obtain ⟨rfl, -⟩ := Prod.mk.inj failed
    exact .inl rfl
  | ok reader =>
    rw [checked] at failed
    refine .inr ⟨⟨reader, rfl⟩, ?_⟩
    unfold decryptChecked at failed
    dsimp only at failed
    split at failed <;> split at failed
    · obtain ⟨rfl, -⟩ := Prod.mk.inj failed
      rfl
    · cases failed
    · split at failed
      · obtain ⟨rfl, -⟩ := Prod.mk.inj failed
        rfl
      · cases failed
    · split at failed
      · obtain ⟨rfl, -⟩ := Prod.mk.inj failed
        rfl
      · cases failed

/-- A message is refused with an error of its check exactly if it does not pass it. -/
theorem decrypt_refused_iff {ratchet : Ratchet Key} {input : Msg} {maxPlaintextLength : Nat} {error : OlmErrorCode}
    (check : error ≠ .badMessageMac) :
    Fails lastError error (ratchet.decrypt ops input maxPlaintextLength) ↔
      checkReader ops input maxPlaintextLength = .error error := by
  rw [fails_iff]
  constructor
  · rintro ⟨ratchet', failed, rfl⟩
    exact (decrypt_error ops failed).resolve_right fun mac => check mac.2
  · intro checked
    refine ⟨{ ratchet with lastError := error }, ?_, rfl⟩
    rw [decrypt, checked]

/-! ### Encryption -/

/-- An `encrypt` that fails sets the error and does nothing else. -/
theorem encrypt_eq_none {ratchet ratchet' : Ratchet Key} {plaintext random output : Bytes}
    (failed : ratchet.encrypt ops plaintext random output = (ratchet', none)) :
    ratchet' = { ratchet with lastError := ratchet'.lastError } := by
  unfold encrypt at failed
  simp only at failed
  split at failed
  · obtain ⟨rfl, -⟩ := Prod.mk.inj failed
    rfl
  · split at failed
    · obtain ⟨rfl, -⟩ := Prod.mk.inj failed
      rfl
    · cases failed

end RubyOlm.Ratchet
