import Mathlib.Data.List.Perm.Basic
import RubyOlm.DoubleRatchet.Decrypted
import RubyOlm.DoubleRatchet.OlmWire
import RubyOlm.DoubleRatchet.World

/-!
# Two messages in either order

`decrypt` looks its chains and skipped keys up by the header of a message. Two messages with different headers
therefore take the same keys in both orders, whatever the key derivation and the cipher are, as long as nothing is
pushed out of a list.
-/

namespace RubyOlm

/-! ### Buffers -/

namespace Wire

/-- A buffer that is larger than it has to be makes no difference. -/
def Roomy {Key Msg : Type} (wire : Wire Key Msg) : Prop :=
  ∀ key message ciphertext maxPlaintextLength, wire.maxPlaintextLength ciphertext.length ≤ maxPlaintextLength →
    wire.decrypt key message ciphertext maxPlaintextLength =
      wire.decrypt key message ciphertext (wire.maxPlaintextLength ciphertext.length)

theorem olm_roomy (crypto : Crypto) (stack : MessageReader) : (Wire.olm (olmCipher crypto) stack).Roomy := by
  intro key message ciphertext maxPlaintextLength room
  have large : ¬ maxPlaintextLength < ciphertext.length := Nat.not_lt.mpr room
  have enough : ¬ ciphertext.length < ciphertext.length := Nat.lt_irrefl _
  show (aesSha256 crypto.kdf crypto.aes (ascii "OLM_KEYS")).decrypt key.val message ciphertext maxPlaintextLength =
    (aesSha256 crypto.kdf crypto.aes (ascii "OLM_KEYS")).decrypt key.val message ciphertext ciphertext.length
  simp only [aesSha256, large, enough, false_or]

end Wire

namespace Ratchet

variable {Key Msg : Type} (ops : RatchetOps Key Msg)

/-! ### Chains -/

/-- The chain that a message with this ratchet key is looked up in. -/
def liveChain (ratchetKey : PublicKey) (chains : List (ReceiverChain Key)) : Option (ReceiverChain Key) :=
  (findChain ratchetKey chains).map Prod.snd

/-- `moved` in place of the chain under its ratchet key, or in front if there is none. -/
def putChain (moved : ReceiverChain Key) (chains : List (ReceiverChain Key)) : List (ReceiverChain Key) :=
  match findChain moved.ratchetKey chains with
  | none => moved :: chains
  | some (pos, _) => chains.set pos moved

section Chains

variable {ratchetKey : PublicKey} {chains : List (ReceiverChain Key)} {pos : Nat}
  {chain moved moved' : ReceiverChain Key}

theorem findChain_cons_of_ne (different : moved.ratchetKey ≠ ratchetKey) :
    findChain ratchetKey (moved :: chains) = (findChain ratchetKey chains).map fun found => (found.1 + 1, found.2) := by
  rw [findChain, if_neg different]

theorem findChain_set_self (found : findChain moved.ratchetKey chains = some (pos, chain)) :
    findChain moved.ratchetKey (chains.set pos moved) = some (pos, moved) := by
  induction chains generalizing pos with
  | nil => cases found
  | cons first rest ih =>
    rw [findChain] at found
    split at found
    · obtain ⟨rfl, rfl⟩ := Prod.mk.inj (Option.some.inj found)
      rw [List.set_cons_zero, findChain, if_pos rfl]
    · rename_i other
      obtain ⟨⟨pos', chain'⟩, later, same⟩ := Option.map_eq_some_iff.mp found
      obtain ⟨rfl, rfl⟩ := Prod.mk.inj same
      rw [List.set_cons_succ, findChain_cons_of_ne other, ih later]
      rfl

theorem findChain_set_of_ne (found : findChain moved.ratchetKey chains = some (pos, chain))
    (different : moved.ratchetKey ≠ ratchetKey) :
    findChain ratchetKey (chains.set pos moved) = findChain ratchetKey chains := by
  induction chains generalizing pos with
  | nil => cases found
  | cons first rest ih =>
    rw [findChain] at found
    split at found
    · rename_i same
      obtain ⟨rfl, rfl⟩ := Prod.mk.inj (Option.some.inj found)
      rw [List.set_cons_zero, findChain_cons_of_ne different, findChain_cons_of_ne (same ▸ different)]
    · obtain ⟨⟨pos', chain'⟩, later, same⟩ := Option.map_eq_some_iff.mp found
      obtain ⟨rfl, rfl⟩ := Prod.mk.inj same
      rw [List.set_cons_succ, findChain, findChain, ih later]

theorem liveChain_putChain_self (moved : ReceiverChain Key) (chains : List (ReceiverChain Key)) :
    liveChain moved.ratchetKey (putChain moved chains) = some moved := by
  unfold putChain
  split
  · rw [liveChain, findChain, if_pos rfl]
    rfl
  · rename_i found
    rw [liveChain, findChain_set_self found]
    rfl

theorem liveChain_putChain_of_ne (different : moved.ratchetKey ≠ ratchetKey) :
    liveChain ratchetKey (putChain moved chains) = liveChain ratchetKey chains := by
  unfold putChain liveChain
  split
  · rw [findChain_cons_of_ne different, Option.map_map]
    rfl
  · rename_i found
    rw [findChain_set_of_ne found different]

theorem putChain_putChain (same : moved'.ratchetKey = moved.ratchetKey) :
    putChain moved' (putChain moved chains) = putChain moved' chains := by
  unfold putChain
  rw [same]
  cases found : findChain moved.ratchetKey chains with
  | none =>
    simp only
    rw [findChain, if_pos rfl]
    rfl
  | some found' =>
    simp only
    rw [findChain_set_self found]
    exact List.set_set ..

/-- Chains under different keys are put in either order, unless both are new. -/
theorem putChain_comm (different : moved.ratchetKey ≠ moved'.ratchetKey)
    (known : liveChain moved.ratchetKey chains ≠ none ∨ liveChain moved'.ratchetKey chains ≠ none) :
    putChain moved (putChain moved' chains) = putChain moved' (putChain moved chains) := by
  simp only [liveChain, ne_eq, Option.map_eq_none_iff] at known
  unfold putChain
  cases found : findChain moved.ratchetKey chains with
  | none =>
    cases found' : findChain moved'.ratchetKey chains with
    | none => exact absurd found (known.resolve_right fun some => some found')
    | some place' =>
      simp only
      rw [findChain_set_of_ne found' different.symm, found, findChain_cons_of_ne different, found']
      rfl
  | some place =>
    cases found' : findChain moved'.ratchetKey chains with
    | none =>
      simp only
      rw [findChain_set_of_ne found different, found', findChain_cons_of_ne different.symm, found]
      rfl
    | some place' =>
      simp only
      rw [findChain_set_of_ne found' different.symm, found, findChain_set_of_ne found different, found']
      refine List.set_comm _ _ ?_
      rintro same
      obtain ⟨listed, named⟩ := findChain_eq_some found
      obtain ⟨listed', named'⟩ := findChain_eq_some found'
      rw [same, listed] at listed'
      rw [← Option.some.inj listed', named] at named'
      exact different named'

end Chains

/-! ### Skipped keys -/

/-- The plaintext of a message under a key. -/
def opening (reader : CheckedReader Msg) (key : Key) : Option Bytes :=
  ops.wire.decrypt key reader.input reader.ciphertext (ops.wire.maxPlaintextLength reader.ciphertext.length)

/-- What `trySkipped` makes of one key: the key and the plaintext if it is the message's and opens it. -/
def probe (reader : CheckedReader Msg) (key : SkippedMessageKey Key) : Option (SkippedMessageKey Key × Bytes) :=
  if reader.counter = key.messageKey.index ∧ key.ratchetKey = reader.ratchetKey then
    (opening ops reader key.messageKey.key).map fun plaintext => (key, plaintext)
  else none

section Skipped

variable {ops} {reader : CheckedReader Msg} {key : SkippedMessageKey Key} {skipped : List (SkippedMessageKey Key)}
  {pos : Nat} {plaintext : Bytes}

theorem probe_eq_none (other : reader.counter = key.messageKey.index → key.ratchetKey ≠ reader.ratchetKey) :
    probe ops reader key = none := if_neg fun same => other same.1 same.2

theorem probe_eq_some {found : SkippedMessageKey Key} (probed : probe ops reader key = some (found, plaintext)) :
    found = key ∧ key.ratchetKey = reader.ratchetKey ∧ reader.counter = key.messageKey.index ∧
      opening ops reader key.messageKey.key = some plaintext := by
  unfold probe at probed
  split at probed
  · rename_i named
    obtain ⟨_, opened, same⟩ := Option.map_eq_some_iff.mp probed
    obtain ⟨rfl, rfl⟩ := Prod.mk.inj same
    exact ⟨rfl, named.2, named.1, opened⟩
  · cases probed

theorem findSome?_of_trySkipped {maxPlaintextLength : Nat}
    (same : ∀ key, ops.wire.decrypt key reader.input reader.ciphertext maxPlaintextLength = opening ops reader key)
    (tried : trySkipped ops reader maxPlaintextLength skipped = some (pos, plaintext)) :
    ∃ key, skipped[pos]? = some key ∧ skipped.findSome? (probe ops reader) = some (key, plaintext) := by
  induction skipped generalizing pos with
  | nil => cases tried
  | cons first rest ih =>
    have probed : probe ops reader first =
        (if reader.counter = first.messageKey.index ∧ first.ratchetKey = reader.ratchetKey then
          verifyMacAndDecrypt ops first.messageKey reader maxPlaintextLength
        else none).map fun plaintext => (first, plaintext) := by
      rw [probe, verifyMacAndDecrypt, same]
      split <;> rfl
    rw [trySkipped] at tried
    rw [List.findSome?_cons, probed]
    split at tried
    · rename_i opened
      obtain ⟨rfl, rfl⟩ := Prod.mk.inj (Option.some.inj tried)
      rw [opened]
      exact ⟨first, rfl, rfl⟩
    · rename_i failed
      obtain ⟨⟨pos', plaintext'⟩, later, shifted⟩ := Option.map_eq_some_iff.mp tried
      obtain ⟨rfl, rfl⟩ := Prod.mk.inj shifted
      rw [failed]
      exact ih later

theorem findSome?_eraseIdx {α β : Type} {f : α → Option β} {l : List α} {pos : Nat} {a : α} (listed : l[pos]? = some a)
    (none : f a = none) : (l.eraseIdx pos).findSome? f = l.findSome? f := by
  induction l generalizing pos with
  | nil => cases listed
  | cons first rest ih =>
    cases pos with
    | zero =>
      obtain rfl := Option.some.inj listed
      rw [List.eraseIdx_cons_zero, List.findSome?_cons, none]
    | succ pos =>
      rw [List.eraseIdx_cons_succ, List.findSome?_cons, List.findSome?_cons, ih listed]

theorem findSome?_newer {newer : List (SkippedMessageKey Key)}
    (others : ∀ key ∈ newer, reader.counter = key.messageKey.index → key.ratchetKey ≠ reader.ratchetKey) :
    (newer ++ skipped).findSome? (probe ops reader) = skipped.findSome? (probe ops reader) := by
  have none : newer.findSome? (probe ops reader) = none :=
    List.findSome?_eq_none_iff.mpr fun key mem => probe_eq_none (others key mem)
  rw [List.findSome?_append, none, Option.none_or]

end Skipped

/-! ### The places of a chain -/

/-- A chain key after so many steps. -/
def advanceBy (chainKey : ChainKey Key) (count : Nat) : ChainKey Key :=
  ⟨chainKey.index + UInt32.ofNat count, ops.chain chainKeySeed count chainKey.key⟩

section Places

variable {ops} {chainKey : ChainKey Key} {counter : UInt32} {count : Nat}

theorem messageKeyAt_advanceBy (chainKey : ChainKey Key) (count distance : Nat) :
    messageKeyAt ops (advanceBy ops chainKey count).key distance = messageKeyAt ops chainKey.key (count + distance) := by
  rw [messageKeyAt, messageKeyAt, advanceBy, ← ops.chain_add, Nat.add_comm]

theorem advanceBy_advanceBy (chainKey : ChainKey Key) (count more : Nat) :
    advanceBy ops (advanceBy ops chainKey count) more = advanceBy ops chainKey (count + more) := by
  simp only [advanceBy, UInt32.ofNat_add, ← ops.chain_add, UInt32.add_assoc, Nat.add_comm more]

theorem index_add_eq (ahead : counter.toNat = chainKey.index.toNat + count) :
    chainKey.index + UInt32.ofNat count = counter := by
  apply UInt32.toNat_inj.mp
  have := counter.toNat_lt
  rw [UInt32.toNat_add, UInt32.toNat_ofNat', ahead]
  omega

theorem advanceBy_eq (ahead : counter.toNat = chainKey.index.toNat + count) :
    advanceBy ops chainKey (count + 1) = ⟨counter + 1, ops.chain chainKeySeed (count + 1) chainKey.key⟩ := by
  rw [advanceBy, ← index_add_eq ahead, UInt32.ofNat_add, UInt32.add_assoc]
  rfl

theorem skippedFrom_advance (ratchetKey : PublicKey) (chainKey : ChainKey Key) (count more : Nat) :
    skippedFrom ops ⟨ratchetKey, chainKey⟩ (count + 1 + more) =
      skippedFrom ops ⟨ratchetKey, advanceBy ops chainKey (count + 1)⟩ more ++
        ⟨ratchetKey, chainKey.index + UInt32.ofNat count, messageKeyAt ops chainKey.key count⟩ ::
          skippedFrom ops ⟨ratchetKey, chainKey⟩ count := by
  unfold skippedFrom
  rw [List.range_add, List.range_succ]
  simp only [List.reverse_append, List.map_append, List.reverse_cons, List.reverse_nil, List.nil_append,
    List.singleton_append, List.map_cons]
  rw [← List.map_reverse, List.map_map]
  congr 1
  apply List.map_congr_left
  intro distance _
  rw [Function.comp, messageKeyAt_advanceBy, UInt32.ofNat_add, ← UInt32.add_assoc]
  rfl

/-- The skipped keys of a chain show places from its index on, up to the message's. -/
theorem skippedFrom_index {ratchetKey : PublicKey} (ahead : counter.toNat = chainKey.index.toNat + count)
    {key : SkippedMessageKey Key} (mem : key ∈ skippedFrom ops ⟨ratchetKey, chainKey⟩ count) :
    key.ratchetKey = ratchetKey ∧ chainKey.index.toNat ≤ key.messageKey.index.toNat ∧
      key.messageKey.index.toNat < counter.toNat := by
  obtain ⟨distance, within, rfl⟩ := List.mem_map.mp mem
  rw [List.mem_reverse, List.mem_range] at within
  have := counter.toNat_lt
  refine ⟨rfl, ?_, ?_⟩
  · simp only [UInt32.toNat_add, UInt32.toNat_ofNat']
    omega
  · simp only [UInt32.toNat_add, UInt32.toNat_ofNat']
    omega

end Places

/-! ### What one message does -/

/-- The same root key, sender chain and receiver chains, and the same skipped keys in some order. -/
structure SameKeys (ratchet ratchet' : Ratchet Key) : Prop where
  root : ratchet.rootKey = ratchet'.rootKey
  sender : ratchet.senderChain.toList = ratchet'.senderChain.toList
  receivers : ratchet.receiverChains.toList = ratchet'.receiverChains.toList
  skipped : ratchet.skippedMessageKeys.toList.Perm ratchet'.skippedMessageKeys.toList

section Taken

variable (ratchet : Ratchet Key) (reader : CheckedReader Msg) (plaintext : Bytes) (ratchet' : Ratchet Key)

/-- Where the chain of a message starts: at the one that is kept, or at a new one in exchange for the sender chain. -/
inductive Starts : ChainKey Key → Prop
  | kept {chain : ReceiverChain Key} (live : liveChain reader.ratchetKey ratchet.receiverChains.toList = some chain)
      (root : ratchet'.rootKey = ratchet.rootKey)
      (sender : ratchet'.senderChain.toList = ratchet.senderChain.toList) : Starts chain.chainKey
  | new {start : ChainKey Key} (unknown : liveChain reader.ratchetKey ratchet.receiverChains.toList = none)
      (turn : ratchet.senderChain.toList ≠ [])
      (created : createChainKey ops ratchet.rootKey ratchet.sender.ratchetKey reader.ratchetKey =
        (ratchet'.rootKey, start))
      (ended : ratchet'.senderChain.toList = []) : Starts start

/-- The chain goes on to the place behind the message, and the keys before it are kept. -/
structure MovesOn (start : ChainKey Key) (count : Nat) : Prop where
  starts : Starts ops ratchet reader ratchet' start
  ahead : reader.counter.toNat = start.index.toNat + count
  opened : opening ops reader (messageKeyAt ops start.key count) = some plaintext
  receivers : ratchet'.receiverChains.toList =
    putChain ⟨reader.ratchetKey, advanceBy ops start (count + 1)⟩ ratchet.receiverChains.toList
  skipped : ratchet'.skippedMessageKeys.toList =
    skippedFrom ops ⟨reader.ratchetKey, start⟩ count ++ ratchet.skippedMessageKeys.toList

/-- A key that was kept for the message is used up. -/
structure Fetches (key : SkippedMessageKey Key) : Prop where
  behind : ∃ chain, liveChain reader.ratchetKey ratchet.receiverChains.toList = some chain ∧
    reader.counter < chain.chainKey.index
  found : ratchet.skippedMessageKeys.toList.findSome? (probe ops reader) = some (key, plaintext)
  root : ratchet'.rootKey = ratchet.rootKey
  sender : ratchet'.senderChain.toList = ratchet.senderChain.toList
  receivers : ratchet'.receiverChains.toList = ratchet.receiverChains.toList
  skipped : ∃ pos, ratchet.skippedMessageKeys.toList[pos]? = some key ∧
    ratchet'.skippedMessageKeys.toList = ratchet.skippedMessageKeys.toList.eraseIdx pos

/-- `ratchet` takes the message and pushes nothing out of its lists. -/
inductive Taken : Prop
  | movesOn {start : ChainKey Key} {count : Nat} (moves : MovesOn ops ratchet reader plaintext ratchet' start count)
  | fetches {key : SkippedMessageKey Key} (fetches : Fetches ops ratchet reader plaintext ratchet' key)

end Taken

variable {ops} {ratchet ratchet₁ ratchet₂ ending ending₂ : Ratchet Key} {reader reader' : CheckedReader Msg}
  {plaintext plaintext' plaintext₂ plaintext₂' : Bytes} {start start' : ChainKey Key} {count count' : Nat}
  {key key' : SkippedMessageKey Key}

theorem SameKeys.symm (same : SameKeys ratchet ratchet₁) : SameKeys ratchet₁ ratchet :=
  ⟨same.root.symm, same.sender.symm, same.receivers.symm, same.skipped.symm⟩

theorem sender_eq {ratchet ratchet' : Ratchet Key} (some : ratchet.senderChain.toList ≠ [])
    (same : ratchet'.senderChain.toList = ratchet.senderChain.toList) : ratchet'.sender = ratchet.sender := by
  obtain ⟨chain, rest, listed⟩ := List.exists_cons_of_ne_nil some
  have here : ratchet.sender = chain := OlmList.data_zero_eq (by decide) listed
  have there : ratchet'.sender = chain := OlmList.data_zero_eq (by decide) (same.trans listed)
  rw [here, there]

/-- The same chains and sender chain give the same start, and leave the same. -/
theorem Starts.same (starts : Starts ops ratchet reader ratchet₁ start)
    (starts' : Starts ops ratchet₂ reader ending₂ start')
    (live : liveChain reader.ratchetKey ratchet₂.receiverChains.toList =
      liveChain reader.ratchetKey ratchet.receiverChains.toList)
    (root : ratchet₂.rootKey = ratchet.rootKey) (sender : ratchet₂.senderChain.toList = ratchet.senderChain.toList) :
    start' = start ∧ ending₂.rootKey = ratchet₁.rootKey ∧
      ending₂.senderChain.toList = ratchet₁.senderChain.toList := by
  cases starts with
  | kept found root₁ sender₁ =>
    rw [found] at live
    cases starts' with
    | kept found' root' sender' =>
      obtain rfl := Option.some.inj (found'.symm.trans live)
      exact ⟨rfl, (root'.trans root).trans root₁.symm, (sender'.trans sender).trans sender₁.symm⟩
    | new unknown' _ _ _ => cases unknown'.symm.trans live
  | new unknown turn created ended =>
    rw [unknown] at live
    cases starts' with
    | kept found' _ _ => cases found'.symm.trans live
    | new _ _ created' ended' =>
      rw [root, sender_eq turn sender, created] at created'
      obtain ⟨same_root, same_start⟩ := Prod.mk.inj created'
      exact ⟨same_start.symm, same_root.symm, ended'.trans ended.symm⟩

/-- The chain that is kept is the start. -/
theorem Starts.eq_live {chain : ReceiverChain Key} (starts : Starts ops ratchet reader ratchet₁ start)
    (live : liveChain reader.ratchetKey ratchet.receiverChains.toList = some chain) : start = chain.chainKey := by
  cases starts with
  | kept found _ _ =>
    obtain rfl := Option.some.inj (found.symm.trans live)
    rfl
  | new unknown _ _ _ => cases unknown.symm.trans live

theorem Starts.kept_frame (starts : Starts ops ratchet reader ratchet₁ start)
    (known : liveChain reader.ratchetKey ratchet.receiverChains.toList ≠ none) :
    ratchet₁.rootKey = ratchet.rootKey ∧ ratchet₁.senderChain.toList = ratchet.senderChain.toList := by
  cases starts with
  | kept _ root sender => exact ⟨root, sender⟩
  | new unknown _ _ _ => exact absurd unknown known

theorem Starts.new_frame (starts : Starts ops ratchet reader ratchet₁ start)
    (unknown : liveChain reader.ratchetKey ratchet.receiverChains.toList = none) :
    ratchet.senderChain.toList ≠ [] ∧ ratchet₁.senderChain.toList = [] := by
  cases starts with
  | kept found _ _ => cases unknown.symm.trans found
  | new _ turn _ ended => exact ⟨turn, ended⟩

theorem Fetches.perm (fetches : Fetches ops ratchet reader plaintext ratchet₁ key) :
    ratchet.skippedMessageKeys.toList.Perm (key :: ratchet₁.skippedMessageKeys.toList) := by
  obtain ⟨pos, listed, rest⟩ := fetches.skipped
  obtain ⟨live, rfl⟩ := List.getElem?_eq_some_iff.mp listed
  rw [rest]
  exact (List.getElem_cons_eraseIdx_perm live).symm

theorem Fetches.named (fetches : Fetches ops ratchet reader plaintext ratchet₁ key) :
    key.ratchetKey = reader.ratchetKey ∧ reader.counter = key.messageKey.index := by
  obtain ⟨_, -, probed⟩ := List.exists_of_findSome?_eq_some fetches.found
  obtain ⟨rfl, named, counter, -⟩ := probe_eq_some probed
  exact ⟨named, counter⟩

theorem MovesOn.put (moves : MovesOn ops ratchet reader plaintext ratchet₁ start count) :
    liveChain reader.ratchetKey ratchet₁.receiverChains.toList =
      some ⟨reader.ratchetKey, advanceBy ops start (count + 1)⟩ := by
  rw [moves.receivers]
  exact liveChain_putChain_self ⟨reader.ratchetKey, advanceBy ops start (count + 1)⟩ _

theorem MovesOn.index (moves : MovesOn ops ratchet reader plaintext ratchet₁ start count)
    (short : reader.counter.toNat + 1 < 2 ^ 32) :
    (advanceBy ops start (count + 1)).index.toNat = reader.counter.toNat + 1 := by
  rw [advanceBy_eq moves.ahead, UInt32.toNat_add, UInt32.toNat_one, Nat.mod_eq_of_lt short]

/-- A message leaves the chains of others as they are. -/
theorem Taken.liveChain_eq {ratchetKey : PublicKey} (taken : Taken ops ratchet reader plaintext ratchet₁)
    (different : reader.ratchetKey ≠ ratchetKey) :
    liveChain ratchetKey ratchet₁.receiverChains.toList = liveChain ratchetKey ratchet.receiverChains.toList := by
  cases taken with
  | movesOn moves =>
    rw [moves.receivers]
    exact liveChain_putChain_of_ne different
  | fetches fetches => rw [fetches.receivers]

/-! ### The same again -/

/-- After another message the chain is still past the one whose key was kept. -/
theorem Fetches.still_behind (short : reader'.counter.toNat + 1 < 2 ^ 32)
    (first : Fetches ops ratchet reader plaintext ratchet₁ key) (other : Taken ops ratchet reader' plaintext' ratchet₂) :
    ∃ chain, liveChain reader.ratchetKey ratchet₂.receiverChains.toList = some chain ∧
      reader.counter < chain.chainKey.index := by
  obtain ⟨chain, live, behind⟩ := first.behind
  by_cases same : reader'.ratchetKey = reader.ratchetKey
  · cases other with
    | movesOn moves =>
      refine ⟨_, same ▸ moves.put, ?_⟩
      have ahead := moves.ahead
      obtain rfl := moves.starts.eq_live (same ▸ live)
      rw [UInt32.lt_iff_toNat_lt] at behind ⊢
      rw [moves.index short]
      omega
    | fetches fetches => exact ⟨chain, fetches.receivers ▸ live, behind⟩
  · exact ⟨chain, (other.liveChain_eq same).trans live, behind⟩

/-- Another message stores no key and takes none that the search for a kept key would stop at. -/
theorem Fetches.still_found (apart : (reader.ratchetKey, reader.counter) ≠ (reader'.ratchetKey, reader'.counter))
    (first : Fetches ops ratchet reader plaintext ratchet₁ key) (other : Taken ops ratchet reader' plaintext' ratchet₂) :
    ratchet₂.skippedMessageKeys.toList.findSome? (probe ops reader) = some (key, plaintext) := by
  rw [← first.found]
  obtain ⟨chain, live, behind⟩ := first.behind
  cases other with
  | movesOn moves =>
    rw [moves.skipped]
    refine findSome?_newer fun key mem counter named => ?_
    obtain ⟨owned, from_start, -⟩ := skippedFrom_index moves.ahead mem
    have same : reader'.ratchetKey = reader.ratchetKey := owned.symm.trans named
    obtain rfl := moves.starts.eq_live (same ▸ live)
    rw [UInt32.lt_iff_toNat_lt] at behind
    rw [← counter] at from_start
    omega
  | fetches fetches =>
    obtain ⟨pos, listed, rest⟩ := fetches.skipped
    obtain ⟨named, counter⟩ := fetches.named
    rw [rest]
    refine findSome?_eraseIdx listed (probe_eq_none fun counter' named' => apart ?_)
    rw [← named', counter', ← named, counter]

/-- After another message a kept key is still the one that is used. -/
theorem Fetches.again (apart : (reader.ratchetKey, reader.counter) ≠ (reader'.ratchetKey, reader'.counter))
    (short : reader'.counter.toNat + 1 < 2 ^ 32) (first : Fetches ops ratchet reader plaintext ratchet₁ key)
    (other : Taken ops ratchet reader' plaintext' ratchet₂) (again : Taken ops ratchet₂ reader plaintext₂ ending₂) :
    plaintext₂ = plaintext ∧ Fetches ops ratchet₂ reader plaintext ending₂ key := by
  cases again with
  | movesOn moves =>
    exfalso
    obtain ⟨chain, live, behind⟩ := first.still_behind short other
    have ahead := moves.ahead
    obtain rfl := moves.starts.eq_live live
    rw [UInt32.lt_iff_toNat_lt] at behind
    omega
  | fetches fetches =>
    have found := fetches.found
    rw [first.still_found apart other] at found
    obtain ⟨rfl, rfl⟩ := Prod.mk.inj (Option.some.inj found)
    exact ⟨rfl, fetches⟩

/-- After another message a chain that was not touched goes on in the same way. -/
theorem MovesOn.again (first : MovesOn ops ratchet reader plaintext ratchet₁ start count)
    (other : Taken ops ratchet reader' plaintext' ratchet₂)
    (live : liveChain reader.ratchetKey ratchet₂.receiverChains.toList =
      liveChain reader.ratchetKey ratchet.receiverChains.toList)
    (again : Taken ops ratchet₂ reader plaintext₂ ending₂) :
    plaintext₂ = plaintext ∧ MovesOn ops ratchet₂ reader plaintext ending₂ start count := by
  have ahead := first.ahead
  cases again with
  | fetches fetches =>
    obtain ⟨chain, live₂, behind⟩ := fetches.behind
    exfalso
    obtain rfl := first.starts.eq_live (live.symm.trans live₂)
    rw [UInt32.lt_iff_toNat_lt] at behind
    omega
  | @movesOn start₂ count₂ moves =>
    have same : start₂ = start := by
      cases other with
      | fetches fetches => exact (first.starts.same moves.starts live fetches.root fetches.sender).1
      | movesOn moves' =>
        cases moves'.starts with
        | kept _ root sender => exact (first.starts.same moves.starts live root sender).1
        | new _ _ _ ended =>
          -- the other one has used the sender chain up
          cases first.starts with
          | kept live' _ _ => exact moves.starts.eq_live (live.trans live')
          | new unknown _ _ _ =>
            cases moves.starts with
            | kept live₂ _ _ => cases (live.trans unknown).symm.trans live₂
            | new _ turn _ _ => exact absurd ended turn
    subst same
    have count_eq : count₂ = count := by
      have := moves.ahead
      omega
    subst count_eq
    have opened := moves.opened
    rw [first.opened] at opened
    obtain rfl := Option.some.inj opened
    exact ⟨rfl, moves⟩

/-! ### Either order -/

/-- A kept key and whatever the other message takes. -/
theorem Fetches.comm (apart : (reader.ratchetKey, reader.counter) ≠ (reader'.ratchetKey, reader'.counter))
    (short : reader.counter.toNat + 1 < 2 ^ 32) (short' : reader'.counter.toNat + 1 < 2 ^ 32)
    (first : Fetches ops ratchet reader plaintext ratchet₁ key) (second : Taken ops ratchet₁ reader' plaintext' ending)
    (first₂ : Taken ops ratchet reader' plaintext₂' ratchet₂) (second₂ : Taken ops ratchet₂ reader plaintext₂ ending₂) :
    plaintext = plaintext₂ ∧ plaintext' = plaintext₂' ∧ SameKeys ending ending₂ := by
  obtain ⟨text, later₂⟩ := first.again apart short' first₂ second₂
  cases first₂ with
  | @fetches key' other =>
    obtain ⟨text', later⟩ := other.again apart.symm short (.fetches first) second
    refine ⟨text.symm, text', ?_, ?_, ?_, ?_⟩
    · rw [later.root, first.root, later₂.root, other.root]
    · rw [later.sender, first.sender, later₂.sender, other.sender]
    · rw [later.receivers, first.receivers, later₂.receivers, other.receivers]
    · have here := first.perm.trans (later.perm.cons key)
      have there := other.perm.trans (later₂.perm.cons key')
      exact ((here.symm.trans there).trans (List.Perm.swap key key' _)).cons_inv.cons_inv
  | @movesOn start' count' other =>
    have live : liveChain reader'.ratchetKey ratchet₁.receiverChains.toList =
        liveChain reader'.ratchetKey ratchet.receiverChains.toList := by rw [first.receivers]
    obtain ⟨text', later⟩ := other.again (.fetches first) live second
    obtain ⟨-, root, sender⟩ := other.starts.same later.starts live first.root first.sender
    refine ⟨text.symm, text', ?_, ?_, ?_, ?_⟩
    · rw [root, later₂.root]
    · rw [sender, later₂.sender]
    · rw [later.receivers, first.receivers, later₂.receivers, other.receivers]
    · have taken := later₂.perm
      rw [other.skipped] at taken
      rw [later.skipped]
      exact (((first.perm.append_left _).trans List.perm_middle).symm.trans taken).cons_inv

/-- Two messages on different chains. -/
theorem MovesOn.comm (apart : reader.ratchetKey ≠ reader'.ratchetKey)
    (first : MovesOn ops ratchet reader plaintext ratchet₁ start count)
    (second : Taken ops ratchet₁ reader' plaintext' ending)
    (first₂ : MovesOn ops ratchet reader' plaintext₂' ratchet₂ start' count')
    (second₂ : Taken ops ratchet₂ reader plaintext₂ ending₂) :
    plaintext = plaintext₂ ∧ plaintext' = plaintext₂' ∧ SameKeys ending ending₂ := by
  have taken : Taken ops ratchet reader plaintext ratchet₁ := .movesOn first
  have taken₂ : Taken ops ratchet reader' plaintext₂' ratchet₂ := .movesOn first₂
  have live := taken.liveChain_eq apart
  have live₂ := taken₂.liveChain_eq apart.symm
  obtain ⟨text', later⟩ := first₂.again taken live second
  obtain ⟨text, later₂⟩ := first.again taken₂ live₂ second₂
  have frame : (ending.rootKey = ending₂.rootKey ∧ ending.senderChain.toList = ending₂.senderChain.toList) ∧
      (liveChain reader.ratchetKey ratchet.receiverChains.toList ≠ none ∨
        liveChain reader'.ratchetKey ratchet.receiverChains.toList ≠ none) := by
    by_cases known : liveChain reader.ratchetKey ratchet.receiverChains.toList = none
    · by_cases known' : liveChain reader'.ratchetKey ratchet.receiverChains.toList = none
      · -- one sender chain is not enough for two new chains
        exact absurd (first₂.starts.new_frame known').2 (later₂.starts.new_frame (live₂.trans known)).1
      · obtain ⟨root, sender⟩ := first₂.starts.kept_frame known'
        obtain ⟨-, same_root, same_sender⟩ := first.starts.same later₂.starts live₂ root sender
        obtain ⟨root₁, sender₁⟩ := later.starts.kept_frame (live ▸ known')
        exact ⟨⟨root₁.trans same_root.symm, sender₁.trans same_sender.symm⟩, .inr known'⟩
    · obtain ⟨root, sender⟩ := first.starts.kept_frame known
      obtain ⟨-, same_root, same_sender⟩ := first₂.starts.same later.starts live root sender
      obtain ⟨root₂, sender₂⟩ := later₂.starts.kept_frame (live₂ ▸ known)
      exact ⟨⟨same_root.trans root₂.symm, same_sender.trans sender₂.symm⟩, .inl known⟩
  obtain ⟨⟨root, sender⟩, known⟩ := frame
  refine ⟨text.symm, text', root, sender, ?_, ?_⟩
  · rw [later.receivers, first.receivers, later₂.receivers, first₂.receivers]
    exact putChain_comm apart.symm known.symm
  · rw [later.skipped, first.skipped, later₂.skipped, first₂.skipped]
    exact List.perm_append_comm_assoc _ _ _

section OneChain

variable {more : Nat} (same : reader'.ratchetKey = reader.ratchetKey)
include same

/-- The later of two messages on one chain goes on from behind the earlier one. -/
theorem MovesOn.then_later (before : reader.counter.toNat < reader'.counter.toNat)
    (first : MovesOn ops ratchet reader plaintext ratchet₁ start count)
    (second : Taken ops ratchet₁ reader' plaintext' ending) :
    ∃ more, MovesOn ops ratchet₁ reader' plaintext' ending (advanceBy ops start (count + 1)) more := by
  have put := first.put
  have index := first.index (by have := reader'.counter.toNat_lt; omega)
  rw [← same] at put
  cases second with
  | fetches fetches =>
    obtain ⟨chain, live, behind⟩ := fetches.behind
    obtain rfl := Option.some.inj (put.symm.trans live)
    rw [UInt32.lt_iff_toNat_lt, index] at behind
    omega
  | @movesOn start₂ more moves =>
    obtain rfl := moves.starts.eq_live put
    exact ⟨more, moves⟩

/-- The earlier of two messages on one chain finds the key that the later one has stored. -/
theorem MovesOn.then_earlier (short : reader'.counter.toNat + 1 < 2 ^ 32)
    (first : MovesOn ops ratchet reader' plaintext' ratchet₂ start (count + 1 + more))
    (ahead : reader.counter.toNat = start.index.toNat + count)
    (opened : opening ops reader (messageKeyAt ops start.key count) = some plaintext)
    (second : Taken ops ratchet₂ reader plaintext₂ ending₂) :
    plaintext₂ = plaintext ∧ Fetches ops ratchet₂ reader plaintext ending₂
      ⟨reader.ratchetKey, reader.counter, messageKeyAt ops start.key count⟩ := by
  have put := first.put
  have index := first.index short
  have later := first.ahead
  rw [same] at put
  cases second with
  | @movesOn start₂ count₂ moves =>
    exfalso
    have beyond := moves.ahead
    obtain rfl := moves.starts.eq_live put
    rw [index] at beyond
    omega
  | fetches fetches =>
    have counter := index_add_eq ahead
    have found := fetches.found
    rw [first.skipped, same, skippedFrom_advance, List.append_assoc, findSome?_newer, List.cons_append,
      List.findSome?_cons, probe, if_pos ⟨counter.symm, rfl⟩, opened] at found
    · obtain ⟨rfl, rfl⟩ := Prod.mk.inj (Option.some.inj found)
      rw [counter] at fetches
      exact ⟨rfl, fetches⟩
    · intro key mem place
      have next : (advanceBy ops start (count + 1)).index.toNat = reader.counter.toNat + 1 := by
        rw [advanceBy_eq ahead, UInt32.toNat_add, UInt32.toNat_one]
        omega
      have later' : reader'.counter.toNat = (advanceBy ops start (count + 1)).index.toNat + more := by
        rw [next, later, ahead]
        omega
      obtain ⟨-, beyond, -⟩ := skippedFrom_index later' mem
      rw [← place] at beyond
      omega

/-- Two messages on one chain that are both ahead. -/
theorem MovesOn.comm_chain (before : reader.counter.toNat < reader'.counter.toNat)
    (short : reader'.counter.toNat + 1 < 2 ^ 32) (first : MovesOn ops ratchet reader plaintext ratchet₁ start count)
    (second : Taken ops ratchet₁ reader' plaintext' ending)
    (first₂ : MovesOn ops ratchet reader' plaintext₂' ratchet₂ start' count')
    (second₂ : Taken ops ratchet₂ reader plaintext₂ ending₂) :
    plaintext = plaintext₂ ∧ plaintext' = plaintext₂' ∧ SameKeys ending ending₂ := by
  obtain ⟨rfl, root, sender⟩ : start' = start ∧ ratchet₂.rootKey = ratchet₁.rootKey ∧
      ratchet₂.senderChain.toList = ratchet₁.senderChain.toList := by
    have starts₂ : Starts ops ratchet reader ratchet₂ start' := by
      cases first₂.starts with
      | kept live root sender => exact .kept (same ▸ live) root sender
      | new unknown turn created ended => exact .new (same ▸ unknown) turn (same ▸ created) ended
    exact first.starts.same starts₂ rfl rfl rfl
  obtain ⟨more, later⟩ := first.then_later same before second
  have place := later.ahead
  rw [first.index (by omega)] at place
  obtain rfl : count' = count + 1 + more := by
    have := first.ahead
    have := first₂.ahead
    omega
  obtain ⟨text, later₂⟩ := first₂.then_earlier same short first.ahead first.opened second₂
  have opened := first₂.opened
  have text' := later.opened
  rw [messageKeyAt_advanceBy, opened] at text'
  obtain ⟨root₁, sender₁⟩ := later.starts.kept_frame (by rw [same, first.put]; exact Option.some_ne_none _)
  refine ⟨text.symm, (Option.some.inj text').symm, ?_, ?_, ?_, ?_⟩
  · rw [root₁, later₂.root, root]
  · rw [sender₁, later₂.sender, sender]
  · rw [later.receivers, first.receivers, putChain_putChain same, later₂.receivers, first₂.receivers,
      advanceBy_advanceBy]
    rfl
  · have taken := later₂.perm
    rw [first₂.skipped, skippedFrom_advance, List.append_assoc, List.cons_append, index_add_eq first.ahead, same] at taken
    rw [later.skipped, first.skipped, same]
    exact (List.perm_middle.symm.trans taken).cons_inv

end OneChain

/-- Two messages with different headers, on any ratchet. -/
theorem Taken.comm (apart : (reader.ratchetKey, reader.counter) ≠ (reader'.ratchetKey, reader'.counter))
    (short : reader.counter.toNat + 1 < 2 ^ 32) (short' : reader'.counter.toNat + 1 < 2 ^ 32)
    (first : Taken ops ratchet reader plaintext ratchet₁) (second : Taken ops ratchet₁ reader' plaintext' ending)
    (first₂ : Taken ops ratchet reader' plaintext₂' ratchet₂) (second₂ : Taken ops ratchet₂ reader plaintext₂ ending₂) :
    plaintext = plaintext₂ ∧ plaintext' = plaintext₂' ∧ SameKeys ending ending₂ := by
  cases first with
  | fetches fetches => exact fetches.comm apart short short' second first₂ second₂
  | movesOn moves =>
    cases first₂ with
    | fetches fetches₂ =>
      obtain ⟨text', text, same⟩ := fetches₂.comm apart.symm short' short second₂ (.movesOn moves) second
      exact ⟨text.symm, text'.symm, same.symm⟩
    | movesOn moves₂ =>
      by_cases same : reader'.ratchetKey = reader.ratchetKey
      · rcases Nat.lt_trichotomy reader.counter.toNat reader'.counter.toNat with before | level | before
        · exact moves.comm_chain same before short' second moves₂ second₂
        · exact absurd (Prod.ext same.symm (UInt32.toNat_inj.mp level)) apart
        · obtain ⟨text', text, same⟩ := moves₂.comm_chain same.symm before short second₂ moves second
          exact ⟨text.symm, text'.symm, same.symm⟩
      · exact moves.comm (Ne.symm same) second moves₂ second₂

end Ratchet

end RubyOlm
