import RubyOlm.DoubleRatchet.Chains
import RubyOlm.DoubleRatchet.World

/-!
# No message key is used twice

Both ends derive root keys one after the other and take turns in starting chains, so a chain is known by how
many root keys came before it: an even number for alice, an odd one for bob. This depends on nothing that a
message or the cipher does.
-/

namespace RubyOlm

namespace Ratchet

variable {Key Msg : Type} (ops : RatchetOps Key Msg)

/-! ### What a call seals with -/

structure Sealing (Key : Type) where
  key : Key
  ratchetKey : PublicKey
  counter : UInt32

/-- The key and the header of the message that an `encrypt` makes, if it makes one. -/
def sealing (ratchet : Ratchet Key) (plaintext random output : Bytes) : Option (Sealing Key) :=
  if random.length < ratchet.encryptRandomLength ∨
      output.length < ratchet.encryptOutputLength ops plaintext.length then none
  else
    let ratchet :=
      if ratchet.senderChain.empty then ratchet.startSenderChain ops (Block.load 32 random) else ratchet
    let keys := createMessageKeys ops ratchet.sender.chainKey
    some ⟨keys.key, ratchet.sender.ratchetKey.publicKey, keys.index⟩

theorem encrypt_eq_sealing (ratchet : Ratchet Key) (plaintext random output : Bytes) :
    (ratchet.encrypt ops plaintext random output).2 =
      (ratchet.sealing ops plaintext random output).map fun made =>
        ops.wire.write made.key made.counter made.ratchetKey plaintext
          (output.take (ratchet.encryptOutputLength ops plaintext.length)) := by
  unfold encrypt sealing
  simp only
  by_cases short : random.length < ratchet.encryptRandomLength
  · simp only [short, true_or, if_true, Option.map_none]
  · by_cases small : output.length < ratchet.encryptOutputLength ops plaintext.length
    · simp only [short, small, or_true, if_true, if_false, Option.map_none]
    · simp only [short, small, or_self, if_false, Option.map_some]
      rfl

/-- The sender chain of a call that seals: it was there, or the call starts it. -/
inductive Sends (ratchet : Ratchet Key) (random : Bytes) (ratchet' : Ratchet Key) : SenderChain Key → Prop
  | onChain {chain : SenderChain Key} (live : ratchet.senderChain.toList = [chain])
      (root : ratchet'.rootKey = ratchet.rootKey) : Sends ratchet random ratchet' chain
  | newChain {rootKey : Key} {chainKey : ChainKey Key} (none : ratchet.senderChain.toList = [])
      (created : createChainKey ops ratchet.rootKey (generateKey ops.curve25519 (Block.load 32 random))
        ratchet.receiver.ratchetKey = (rootKey, chainKey))
      (root : ratchet'.rootKey = rootKey) :
      Sends ratchet random ratchet' ⟨generateKey ops.curve25519 (Block.load 32 random), chainKey⟩

variable {ops} in
theorem sender_live {ratchet : Ratchet Key} (some : ratchet.senderChain.toList ≠ []) :
    ratchet.senderChain.toList = [ratchet.sender] := by
  obtain ⟨chain, rest, listed⟩ := List.exists_cons_of_ne_nil some
  have single : ratchet.senderChain.toList.length ≤ 1 := by
    rw [OlmList.length_toList]
    exact ratchet.senderChain.size_le
  have first : ratchet.sender = chain := OlmList.data_zero_eq (by decide) listed
  rw [listed, List.length_cons] at single
  have last : rest = [] := List.eq_nil_of_length_eq_zero (by omega)
  rw [listed, first, last]

theorem encryptOnChain_live {ratchet : Ratchet Key} {chain : SenderChain Key}
    (live : ratchet.senderChain.toList = [chain]) (plaintext output : Bytes) :
    (ratchet.encryptOnChain ops plaintext output).1.senderChain.toList =
      [{ chain with chainKey := advanceChainKey ops chain.chainKey }] := by
  have sender : ratchet.sender = chain := OlmList.data_zero_eq (by decide) live
  unfold encryptOnChain
  simp only
  rw [OlmList.toList_set, live, sender]
  rfl

/-- All that a call that seals does. -/
theorem encrypt_of_sealing {ratchet : Ratchet Key} {plaintext random output : Bytes} {made : Sealing Key}
    (seals : ratchet.sealing ops plaintext random output = some made) :
    ∃ chain, Sends ops ratchet random (ratchet.encrypt ops plaintext random output).1 chain ∧
      made = ⟨ops.hmac chain.chainKey.key messageKeySeed, chain.ratchetKey.publicKey, chain.chainKey.index⟩ ∧
      (ratchet.encrypt ops plaintext random output).1.senderChain.toList =
        [{ chain with chainKey := advanceChainKey ops chain.chainKey }] := by
  unfold sealing at seals
  split at seals
  · cases seals
  · rename_i enough
    obtain rfl := Option.some.inj seals
    obtain ⟨random_enough, room⟩ := not_or.mp enough
    unfold encrypt
    simp only
    rw [if_neg random_enough, if_neg room]
    by_cases empty : ratchet.senderChain.empty
    · have none := (OlmList.empty_iff _).mp empty
      have live := startSenderChain_live ops none (Block.load 32 random)
      have sender := OlmList.data_zero_eq (by decide) live
      simp only [empty, if_true]
      refine ⟨_, .newChain none rfl rfl, ?_, encryptOnChain_live ops live plaintext _⟩
      rw [Ratchet.sender, sender]
      rfl
    · have live := sender_live (mt (OlmList.empty_iff _).mpr empty)
      simp only [empty]
      exact ⟨ratchet.sender, .onChain live rfl, rfl, encryptOnChain_live ops live plaintext _⟩

/-! ### Root keys in a row -/

variable (secret : Bytes) in
/-- A root key and a chain key derived together, after `level` root keys before them. -/
inductive Rooted : (level : Nat) → Key × Key → Prop
  | zero : Rooted 0 (ops.hkdf secret none ops.kdfInfo.rootInfo)
  | succ {level : Nat} {derived : Key × Key} (rooted : Rooted level derived) (input : Bytes) :
      Rooted (level + 1) (ops.hkdf input (some derived.1) ops.kdfInfo.ratchetInfo)

variable {ops} {secret : Bytes} {level level' : Nat} {derived derived' : Key × Key}

theorem Rooted.root_level (free : ops.Free) (rooted : Rooted ops secret level derived)
    (rooted' : Rooted ops secret level' derived') (same : derived.1 = derived'.1) : level = level' := by
  induction rooted generalizing level' derived' with
  | zero =>
    cases rooted' with
    | zero => rfl
    | succ _ _ => cases (free.fst_inj same).2.1
  | succ before input ih =>
    cases rooted' with
    | zero => cases (free.fst_inj same).2.1
    | succ before' input' => rw [ih before' (Option.some.inj (free.fst_inj same).2.1)]

theorem Rooted.chain_level (free : ops.Free) (rooted : Rooted ops secret level derived)
    (rooted' : Rooted ops secret level' derived') (same : derived.2 = derived'.2) : level = level' := by
  cases rooted with
  | zero =>
    cases rooted' with
    | zero => rfl
    | succ _ _ => cases (free.snd_inj same).2.1
  | succ before input =>
    cases rooted' with
    | zero => cases (free.snd_inj same).2.1
    | succ before' input' => rw [before.root_level free before' (Option.some.inj (free.snd_inj same).2.1)]

theorem Rooted.chain_root (free : ops.Free) (rooted : Rooted ops secret level derived) : ops.Root derived.2 := by
  cases rooted with
  | zero => exact free.snd_root _ _ _
  | succ _ _ => exact free.snd_root _ _ _

/-- The key was derived at `position` on a chain with `level` root keys before it. -/
def KeyAt (ops : RatchetOps Key Msg) (secret : Bytes) (level position : Nat) (key : Key) : Prop :=
  ∃ derived, Rooted ops secret level derived ∧ key = messageKeyAt ops derived.2 position

theorem keyAt_inj (free : ops.Free) {position position' : Nat} {key : Key} (at_place : KeyAt ops secret level position key)
    (at_place' : KeyAt ops secret level' position' key) : level = level' ∧ position = position' := by
  obtain ⟨derived, rooted, rfl⟩ := at_place
  obtain ⟨derived', rooted', same⟩ := at_place'
  obtain ⟨position_same, start⟩ := free.hmac_chain_inj (rooted.chain_root free) (rooted'.chain_root free) same
  exact ⟨rooted.chain_level free rooted' start, position_same⟩

/-! ### Levels of a ratchet -/

/-- Whose turn it is to send when so many root keys have been derived. -/
def turnAt (level : Nat) : Side := if level % 2 = 0 then .alice else .bob

theorem turnAt_succ (level : Nat) : turnAt (level + 1) = (turnAt level).peer := by
  unfold turnAt
  split <;> split <;> first | rfl | omega

/-- The ratchet is at a level, and at a position of its chain if it has one. -/
structure Levelled (ops : RatchetOps Key Msg) (secret : Bytes) (side : Side) (ratchet : Ratchet Key)
    (level position : Nat) : Prop where
  rooted : ∃ derived, Rooted ops secret level derived ∧ ratchet.rootKey = derived.1 ∧
    ∀ chain ∈ ratchet.senderChain.toList, chain.chainKey.key = ops.chain chainKeySeed position derived.2
  turn : ratchet.senderChain.toList ≠ [] ↔ turnAt level = side

/-- At the same level, or a later one. -/
def Later (level position level' position' : Nat) : Prop :=
  level < level' ∨ level = level' ∧ position ≤ position'

variable {side : Side} {ratchet ratchet' : Ratchet Key} {position position' : Nat}

theorem levelled_alice (memory : Ratchet Key) (pair : Curve25519KeyPair) :
    Levelled ops secret .alice ((new memory).initialiseAsAlice ops secret pair) 0 0 := by
  have live := initialiseAsAlice_sender ops memory secret pair
  refine ⟨⟨_, .zero, rfl, ?_⟩, ?_⟩
  · intro chain mem
    rw [live, List.mem_singleton] at mem
    rw [mem]
    rfl
  · rw [live]
    simp [turnAt]

theorem levelled_bob (memory : Ratchet Key) (theirRatchetKey : PublicKey) :
    Levelled ops secret .bob ((new memory).initialiseAsBob ops secret theirRatchetKey) 0 0 := by
  have none : ((new memory).initialiseAsBob ops secret theirRatchetKey).senderChain.toList = [] :=
    OlmList.toList_new _
  refine ⟨⟨_, .zero, rfl, ?_⟩, ?_⟩
  · rw [none]
    nofun
  · rw [none]
    simp [turnAt]

theorem Levelled.of_error (levelled : Levelled ops secret side ratchet level position)
    (same : ratchet' = { ratchet with lastError := ratchet'.lastError }) :
    Levelled ops secret side ratchet' level position := by
  rw [same]
  exact ⟨levelled.rooted, levelled.turn⟩

theorem Levelled.decrypted (levelled : Levelled ops secret side ratchet level position) {reader : CheckedReader Msg}
    {maxPlaintextLength : Nat} {plaintext : Bytes}
    (decrypted : Decrypted ops ratchet reader maxPlaintextLength plaintext ratchet') :
    ∃ level' position', Levelled ops secret side ratchet' level' position' ∧ Later level position level' position' := by
  obtain ⟨⟨derived, rooted, root, chains⟩, turn⟩ := levelled
  cases decrypted with
  | newChain rootKey chainKey unknown created some opened root' sender receivers skipped =>
    refine ⟨level + 1, 0, ⟨⟨_, rooted.succ
      (sharedSecret ops.curve25519 ratchet.sender.ratchetKey reader.ratchetKey).val, ?_, ?_⟩, ?_⟩,
      .inl (Nat.lt_succ_self _)⟩
    · rw [root', ← root]
      exact (congrArg Prod.fst created).symm
    · rw [sender]
      nofun
    · -- it was our turn, so it is not any more
      rw [sender, turnAt_succ, turn.mp some]
      simp
  | liveChain _ _ _ _ _ _ root' sender _ _ =>
    exact ⟨level, position, ⟨⟨derived, rooted, root'.trans root, sender ▸ chains⟩, sender ▸ turn⟩, .inr ⟨rfl, le_refl _⟩⟩
  | skippedKey _ _ _ _ _ root' sender _ _ =>
    exact ⟨level, position, ⟨⟨derived, rooted, root'.trans root, sender ▸ chains⟩, sender ▸ turn⟩, .inr ⟨rfl, le_refl _⟩⟩

theorem Levelled.decrypt (levelled : Levelled ops secret side ratchet level position) (input : Msg)
    (maxPlaintextLength : Nat) :
    ∃ level' position', Levelled ops secret side (ratchet.decrypt ops input maxPlaintextLength).1 level' position' ∧
      Later level position level' position' := by
  rcases done : ratchet.decrypt ops input maxPlaintextLength with ⟨ratchet', _ | plaintext⟩
  · exact ⟨level, position, levelled.of_error (decrypt_eq_none ops done), .inr ⟨rfl, le_refl _⟩⟩
  · obtain ⟨_, _, decrypted⟩ := decrypt_eq_some ops done
    exact levelled.decrypted decrypted

theorem Later.trans {level'' position'' : Nat} (later : Later level position level' position')
    (later' : Later level' position' level'' position'') : Later level position level'' position'' := by
  unfold Later at *
  omega

/-- A call that seals does so at a later place, on our own turn, and leaves the ratchet behind that place. -/
theorem Levelled.encrypt (levelled : Levelled ops secret side ratchet level position) {plaintext random output : Bytes}
    {made : Sealing Key} (seals : ratchet.sealing ops plaintext random output = some made) :
    ∃ level' position', KeyAt ops secret level' position' made.key ∧ turnAt level' = side ∧
      Later level position level' position' ∧
      Levelled ops secret side (ratchet.encrypt ops plaintext random output).1 level' (position' + 1) := by
  obtain ⟨⟨derived, rooted, root, chains⟩, turn⟩ := levelled
  obtain ⟨chain, sends, rfl, next⟩ := encrypt_of_sealing ops seals
  have advanced (position : Nat) (start : Key) (at_start : chain.chainKey.key = ops.chain chainKeySeed position start)
      (chain' : SenderChain Key) (mem : chain' ∈ (ratchet.encrypt ops plaintext random output).1.senderChain.toList) :
      chain'.chainKey.key = ops.chain chainKeySeed (position + 1) start := by
    rw [next, List.mem_singleton] at mem
    rw [mem, ops.chain_succ, ← at_start]
    rfl
  cases sends with
  | onChain live root' =>
    have here := chains chain (live ▸ List.mem_singleton_self _)
    have ours := turn.mp (live ▸ List.cons_ne_nil _ _)
    refine ⟨level, position, ⟨derived, rooted, ?_⟩, ours, .inr ⟨rfl, le_refl _⟩,
      ⟨derived, rooted, root'.trans root, advanced position _ here⟩, ?_⟩
    · rw [messageKeyAt, ← here]
    · rw [next]
      exact iff_of_true (List.cons_ne_nil _ _) ours
  | @newChain rootKey chainKey none created root' =>
    obtain ⟨rfl, rfl⟩ := Prod.mk.inj created
    have theirs : turnAt level ≠ side := mt turn.mpr (not_not_intro none)
    have ours : turnAt (level + 1) = side := by rw [turnAt_succ, Side.eq_peer_of_ne theirs, Side.peer_peer]
    have rooted' := rooted.succ (sharedSecret ops.curve25519 (generateKey ops.curve25519 (Block.load 32 random))
      ratchet.receiver.ratchetKey).val
    rw [← root] at rooted'
    refine ⟨level + 1, 0, ⟨_, rooted', rfl⟩, ours, .inl (Nat.lt_succ_self _),
      ⟨_, rooted', root', advanced 0 _ rfl⟩, ?_⟩
    rw [next]
    exact iff_of_true (List.cons_ne_nil _ _) ours

/-- A call that does not seal changes nothing but the error. -/
theorem encrypt_of_not_sealing {plaintext random output : Bytes}
    (fails : ratchet.sealing ops plaintext random output = none) :
    ratchet.encrypt ops plaintext random output =
      ({ ratchet with lastError := (ratchet.encrypt ops plaintext random output).1.lastError }, none) := by
  have message := encrypt_eq_sealing ops ratchet plaintext random output
  rw [fails, Option.map_none] at message
  have failed : ratchet.encrypt ops plaintext random output =
      ((ratchet.encrypt ops plaintext random output).1, none) := Prod.ext rfl message
  exact Prod.ext (encrypt_eq_none ops failed) message

end Ratchet

namespace World

open Ratchet

variable {Key Msg : Type} {ops : RatchetOps Key Msg} {secret : Bytes} {world world' : World Key Msg}
  {side : Side} {level position : Nat}

variable (ops) in
/-- What an `encrypt` leaves with the end that made it. -/
theorem encrypt_endpoint (world : World Key Msg) (side : Side) (plaintext random output : Bytes) :
    (((world.encrypt ops side plaintext random output).endpoint side).ratchet =
        ((world.endpoint side).ratchet.encrypt ops plaintext random output).1) ∧
      ∀ other, other ≠ side →
        (world.encrypt ops side plaintext random output).endpoint other = world.endpoint other := by
  unfold encrypt
  rcases done : (world.endpoint side).ratchet.encrypt ops plaintext random output with ⟨ratchet', _ | message⟩
  · simp only [done, set_endpoint_self, true_and]
    exact fun other different => set_endpoint_of_ne _ different
  · simp only [done, set_endpoint_self, true_and]
    exact fun other different => set_endpoint_of_ne _ different

variable (ops) in
theorem decrypt_endpoint (world : World Key Msg) (side : Side) (message : Msg) (maxPlaintextLength : Nat) :
    (((world.decrypt ops side message maxPlaintextLength).endpoint side).ratchet =
        ((world.endpoint side).ratchet.decrypt ops message maxPlaintextLength).1) ∧
      ((world.decrypt ops side message maxPlaintextLength).endpoint side).sentUnder =
        (world.endpoint side).sentUnder ∧
      ∀ other, other ≠ side →
        (world.decrypt ops side message maxPlaintextLength).endpoint other = world.endpoint other := by
  unfold decrypt
  rcases done : (world.endpoint side).ratchet.decrypt ops message maxPlaintextLength with ⟨ratchet', _ | plaintext⟩
  · simp only [done, set_endpoint_self, true_and]
    exact fun other different => set_endpoint_of_ne _ different
  · simp only [done, set_endpoint_self, true_and]
    exact fun other different => set_endpoint_of_ne _ different

/-- One event takes each end to the same place or a later one. -/
theorem step_levelled (levelled : Levelled ops secret side (world.endpoint side).ratchet level position)
    (event : Event Msg) :
    ∃ level' position', Levelled ops secret side ((world.step ops event).endpoint side).ratchet level' position' ∧
      Later level position level' position' := by
  have stays : Later level position level position := .inr ⟨rfl, le_refl _⟩
  cases event with
  | encrypt actor plaintext random output =>
    obtain ⟨ratchet, others⟩ := encrypt_endpoint ops world actor plaintext random output.val
    simp only [step]
    by_cases same : side = actor
    · subst same
      rw [ratchet]
      rcases seals : (world.endpoint side).ratchet.sealing ops plaintext random output.val with _ | made
      · rw [encrypt_of_not_sealing seals]
        exact ⟨level, position, levelled.of_error rfl, stays⟩
      · obtain ⟨level', position', -, -, later, levelled'⟩ := levelled.encrypt seals
        exact ⟨level', position' + 1, levelled', later.trans (.inr ⟨rfl, Nat.le_succ _⟩)⟩
    · rw [others side same]
      exact ⟨level, position, levelled, stays⟩
  | decrypt actor message maxPlaintextLength =>
    obtain ⟨ratchet, -, others⟩ := decrypt_endpoint ops world actor message maxPlaintextLength
    simp only [step]
    by_cases same : side = actor
    · subst same
      rw [ratchet]
      exact levelled.decrypt message maxPlaintextLength
    · rw [others side same]
      exact ⟨level, position, levelled, stays⟩

theorem Run.levelled {allowed : World Key Msg → Event Msg → Prop} (run : Run ops allowed world world')
    (levelled : Levelled ops secret side (world.endpoint side).ratchet level position) :
    ∃ level' position', Levelled ops secret side (world'.endpoint side).ratchet level' position' ∧
      Later level position level' position' := by
  induction run with
  | refl => exact ⟨level, position, levelled, .inr ⟨rfl, le_refl _⟩⟩
  | step event _ _ _ ih =>
    obtain ⟨level', position', levelled', later⟩ := ih
    obtain ⟨level'', position'', levelled'', later'⟩ := step_levelled levelled' event
    exact ⟨level'', position'', levelled'', later.trans later'⟩

theorem Reachable.levelled {allowed : World Key Msg → Event Msg → Prop} {pair : Curve25519KeyPair}
    (reached : Reachable ops allowed secret pair world) (side : Side) :
    ∃ level position, Levelled ops secret side (world.endpoint side).ratchet level position := by
  obtain ⟨memory, run⟩ := reached
  have start : Levelled ops secret side ((start ops memory secret pair : World Key Msg).endpoint side).ratchet 0 0 := by
    cases side with
    | alice => exact levelled_alice (memory .alice) pair
    | bob => exact levelled_bob (memory .bob) pair.publicKey
  obtain ⟨level, position, levelled, -⟩ := run.levelled start
  exact ⟨level, position, levelled⟩

/-! ### Headers -/

variable (ops) in
/-- The random bytes of a new chain give a ratchet key that neither end has sent under, and fewer than `2 ^ 32`
messages are sent on a chain. -/
def Fresh (world : World Key Msg) : Event Msg → Prop
  | .encrypt side plaintext random output =>
    let endpoint := world.endpoint side
    (endpoint.ratchet.sealing ops plaintext random output.val).isSome →
      if endpoint.ratchet.senderChain.empty then
        ∀ other, (generateKey ops.curve25519 (Block.load 32 random)).publicKey ∉ (world.endpoint other).sentUnder
      else endpoint.ratchet.sender.chainKey.index.toNat + 1 < 2 ^ 32
  | .decrypt _ _ _ => True

/-- The keys that are sent under are on record, and no key is sent under by both ends. -/
structure Apart (world : World Key Msg) : Prop where
  recorded : ∀ side, (world.endpoint side).ratchet.senderKeys ⊆ (world.endpoint side).sentUnder
  apart : ∀ side, ∀ key ∈ (world.endpoint side).ratchet.senderKeys,
    key ∉ (world.endpoint side.peer).ratchet.senderKeys

/-- The end `side` has sent under the ratchet key, its chain is past the counter if that key is still the one
it sends under, and the other end does not send under it. -/
structure Past (world : World Key Msg) (side : Side) (ratchetKey : PublicKey) (counter : UInt32) : Prop where
  sentUnder : ratchetKey ∈ (world.endpoint side).sentUnder
  behind : ∀ chain ∈ (world.endpoint side).ratchet.senderChain.toList, chain.ratchetKey.publicKey = ratchetKey →
    counter < chain.chainKey.index
  ours : ratchetKey ∉ (world.endpoint side.peer).ratchet.senderKeys

variable {plaintext random : Bytes} {output : Buffer} {made : Sealing Key} {ratchetKey : PublicKey} {counter : UInt32}

theorem decrypt_senderChain (ratchet : Ratchet Key) (input : Msg) (maxPlaintextLength : Nat) :
    (ratchet.decrypt ops input maxPlaintextLength).1.senderChain.toList ⊆ ratchet.senderChain.toList := by
  rcases done : ratchet.decrypt ops input maxPlaintextLength with ⟨ratchet', _ | plaintext⟩
  · rw [decrypt_eq_none ops done]
    exact List.Subset.refl _
  · obtain ⟨_, _, decrypted⟩ := decrypt_eq_some ops done
    cases decrypted with
    | newChain _ _ _ _ _ _ _ sender _ _ =>
      rw [sender]
      exact List.nil_subset _
    | liveChain _ _ _ _ _ _ _ sender _ _ =>
      rw [sender]
      exact List.Subset.refl _
    | skippedKey _ _ _ _ _ _ sender _ _ =>
      rw [sender]
      exact List.Subset.refl _

/-- What an event does to what the ends send under: an end uses a chain that is live or new, or some end may
give its chain up. -/
inductive Uses (ops : RatchetOps Key Msg) (world world' : World Key Msg) : Prop
  | chain (side : Side) (chain : SenderChain Key)
      (fresh : (world.endpoint side).ratchet.senderChain.toList = [chain] ∨
        ∀ other, chain.ratchetKey.publicKey ∉ (world.endpoint other).sentUnder)
      (room : chain.chainKey.index.toNat + 1 < 2 ^ 32)
      (next : (world'.endpoint side).ratchet.senderChain.toList =
        [{ chain with chainKey := advanceChainKey ops chain.chainKey }])
      (sentUnder : (world'.endpoint side).sentUnder = chain.ratchetKey.publicKey :: (world.endpoint side).sentUnder)
      (frame : ∀ other, other ≠ side → world'.endpoint other = world.endpoint other) : Uses ops world world'
  | none (chains : ∀ side,
        (world'.endpoint side).ratchet.senderChain.toList ⊆ (world.endpoint side).ratchet.senderChain.toList)
      (sentUnder : ∀ side, (world'.endpoint side).sentUnder = (world.endpoint side).sentUnder) : Uses ops world world'

theorem encrypt_sentUnder (seals : (world.endpoint side).ratchet.sealing ops plaintext random output.val = some made) :
    ((world.encrypt ops side plaintext random output.val).endpoint side).sentUnder =
      made.ratchetKey :: (world.endpoint side).sentUnder := by
  obtain ⟨chain, -, rfl, next⟩ := encrypt_of_sealing ops seals
  have message := encrypt_eq_sealing ops (world.endpoint side).ratchet plaintext random output.val
  rw [seals, Option.map_some] at message
  unfold encrypt
  rcases done : (world.endpoint side).ratchet.encrypt ops plaintext random output.val with ⟨ratchet', _ | made⟩
  · rw [done] at message
    cases message
  · rw [done] at next
    simp only [done, set_endpoint_self, senderKeys, next]
    rfl

theorem encrypt_of_not_sealing_endpoint
    (fails : (world.endpoint side).ratchet.sealing ops plaintext random output.val = none) (other : Side) :
    ((world.encrypt ops side plaintext random output.val).endpoint other).sentUnder =
        (world.endpoint other).sentUnder ∧
      ((world.encrypt ops side plaintext random output.val).endpoint other).ratchet.senderChain =
        (world.endpoint other).ratchet.senderChain := by
  unfold encrypt
  simp only
  rw [encrypt_of_not_sealing fails]
  by_cases same : other = side
  · subst same
    simp only [set_endpoint_self, and_self]
  · simp only [set_endpoint_of_ne _ same, and_self]

/-- The chain that a fresh call seals with. -/
theorem chain_of_fresh (fresh : Fresh ops world (.encrypt side plaintext random output))
    (seals : (world.endpoint side).ratchet.sealing ops plaintext random output.val = some made) {ratchet' : Ratchet Key}
    {chain : SenderChain Key} (sends : Sends ops (world.endpoint side).ratchet random ratchet' chain) :
    ((world.endpoint side).ratchet.senderChain.toList = [chain] ∨
      ∀ other, chain.ratchetKey.publicKey ∉ (world.endpoint other).sentUnder) ∧
      chain.chainKey.index.toNat + 1 < 2 ^ 32 := by
  unfold Fresh at fresh
  simp only [seals, Option.isSome_some, true_imp_iff] at fresh
  cases sends with
  | onChain live root =>
    have some : ¬ (world.endpoint side).ratchet.senderChain.empty := by
      rw [OlmList.empty_iff, live]
      exact List.cons_ne_nil _ _
    rw [if_neg some, show (world.endpoint side).ratchet.sender = chain from OlmList.data_zero_eq (by decide) live] at fresh
    exact ⟨.inl live, fresh⟩
  | newChain none created root =>
    rw [if_pos ((OlmList.empty_iff _).mpr none)] at fresh
    obtain ⟨rfl, rfl⟩ := Prod.mk.inj created
    have zero : (0 : UInt32).toNat + 1 < 2 ^ 32 := by decide
    exact ⟨.inr fresh, zero⟩

theorem step_uses (event : Event Msg) (fresh : Fresh ops world event) : Uses ops world (world.step ops event) := by
  cases event with
  | encrypt side plaintext random output =>
    rcases seals : (world.endpoint side).ratchet.sealing ops plaintext random output.val with _ | made
    · refine .none (fun other => ?_) fun other => (encrypt_of_not_sealing_endpoint seals other).1
      simp only [step, (encrypt_of_not_sealing_endpoint seals other).2]
      exact List.Subset.refl _
    · obtain ⟨chain, sends, rfl, next⟩ := encrypt_of_sealing ops seals
      obtain ⟨fresh, room⟩ := chain_of_fresh fresh seals sends
      obtain ⟨ratchet, others⟩ := encrypt_endpoint ops world side plaintext random output.val
      exact .chain side chain fresh room (ratchet ▸ next) (encrypt_sentUnder seals) others
  | decrypt side message maxPlaintextLength =>
    obtain ⟨ratchet, sentUnder, others⟩ := decrypt_endpoint ops world side message maxPlaintextLength
    refine .none (fun other => ?_) fun other => ?_
    · by_cases same : other = side
      · subst same
        simp only [step, ratchet]
        exact decrypt_senderChain _ message maxPlaintextLength
      · simp only [step, others other same]
        exact List.Subset.refl _
    · by_cases same : other = side
      · subst same
        exact sentUnder
      · exact congrArg Endpoint.sentUnder (others other same)

theorem senderKeys_eq {ratchet : Ratchet Key} {chain : SenderChain Key} (live : ratchet.senderChain.toList = [chain]) :
    ratchet.senderKeys = [chain.ratchetKey.publicKey] := by
  rw [senderKeys, live]
  rfl

theorem Apart.uses (apart : Apart world) (uses : Uses ops world world') : Apart world' := by
  cases uses with
  | none chains sentUnder =>
    have keys (side : Side) : (world'.endpoint side).ratchet.senderKeys ⊆ (world.endpoint side).ratchet.senderKeys :=
      List.map_subset _ (chains side)
    refine ⟨fun side => ?_, fun side key mem peer => apart.apart side key (keys side mem) (keys side.peer peer)⟩
    rw [sentUnder]
    exact List.Subset.trans (keys side) (apart.recorded side)
  | chain side chain fresh room next sentUnder frame =>
    have keys := senderKeys_eq next
    have theirs : chain.ratchetKey.publicKey ∉ (world.endpoint side.peer).ratchet.senderKeys := by
      rcases fresh with live | new
      · exact apart.apart side _ (senderKeys_eq live ▸ List.mem_singleton_self _)
      · exact fun mem => new side.peer (apart.recorded side.peer mem)
    have peer := frame side.peer (Side.peer_ne side)
    refine ⟨fun other => ?_, fun other key mem => ?_⟩
    · by_cases same : other = side
      · subst same
        rw [keys, sentUnder]
        exact List.cons_subset_cons _ (List.nil_subset _)
      · rw [frame other same]
        exact apart.recorded other
    · by_cases same : other = side
      · subst same
        rw [keys, List.mem_singleton] at mem
        rw [peer, mem]
        exact theirs
      · obtain rfl := Side.eq_peer_of_ne same
        rw [Side.peer_peer, keys, List.mem_singleton]
        rintro rfl
        rw [peer] at mem
        exact theirs mem

theorem Past.uses (past : Past world side ratchetKey counter) (uses : Uses ops world world') :
    Past world' side ratchetKey counter := by
  cases uses with
  | none chains sentUnder =>
    refine ⟨?_, fun chain mem => past.behind chain (chains side mem), ?_⟩
    · rw [sentUnder]
      exact past.sentUnder
    · exact fun mem => past.ours (List.map_subset _ (chains side.peer) mem)
  | chain actor chain fresh room next sentUnder frame =>
    by_cases same : side = actor
    · subst same
      refine ⟨?_, ?_, ?_⟩
      · rw [sentUnder]
        exact List.mem_cons_of_mem _ past.sentUnder
      · intro chain' mem used
        rw [next, List.mem_singleton] at mem
        subst mem
        rcases fresh with live | new
        · have before := past.behind chain (live ▸ List.mem_singleton_self _) used
          rw [UInt32.lt_iff_toNat_lt] at before ⊢
          have one : (1 : UInt32).toNat = 1 := rfl
          simp only [advanceChainKey, UInt32.toNat_add, one]
          omega
        · exact absurd past.sentUnder (used ▸ new side)
      · rw [frame _ (Side.peer_ne side)]
        exact past.ours
    · obtain rfl := Side.eq_peer_of_ne (Ne.symm same)
      refine ⟨?_, ?_, ?_⟩
      · rw [frame side same]
        exact past.sentUnder
      · rw [frame side same]
        exact past.behind
      · rw [senderKeys_eq next, List.mem_singleton]
        rintro rfl
        rcases fresh with live | new
        · exact past.ours (senderKeys_eq live ▸ List.mem_singleton_self _)
        · exact new side past.sentUnder

/-- A call that seals leaves its header behind. -/
theorem Apart.past (apart : Apart world) (fresh : Fresh ops world (.encrypt side plaintext random output))
    (seals : (world.endpoint side).ratchet.sealing ops plaintext random output.val = some made) :
    Past (world.step ops (.encrypt side plaintext random output)) side made.ratchetKey made.counter := by
  have sentUnder := encrypt_sentUnder seals
  obtain ⟨ratchet, others⟩ := encrypt_endpoint ops world side plaintext random output.val
  obtain ⟨chain, sends, rfl, next⟩ := encrypt_of_sealing ops seals
  obtain ⟨fresh, room⟩ := chain_of_fresh fresh seals sends
  simp only [step]
  refine ⟨?_, ?_, ?_⟩
  · rw [sentUnder]
    exact List.mem_cons_self
  · intro chain' mem _
    rw [ratchet, next, List.mem_singleton] at mem
    have one : (1 : UInt32).toNat = 1 := rfl
    rw [mem, UInt32.lt_iff_toNat_lt]
    simp only [advanceChainKey, UInt32.toNat_add, one]
    omega
  · rw [others _ (Side.peer_ne side)]
    rcases fresh with live | new
    · exact apart.apart side _ (senderKeys_eq live ▸ List.mem_singleton_self _)
    · exact fun mem => new side.peer (apart.recorded side.peer mem)

/-- A header that is past is not used. -/
theorem Past.not_used (past : Past world side ratchetKey counter) {actor : Side}
    (fresh : Fresh ops world (.encrypt actor plaintext random output))
    (seals : (world.endpoint actor).ratchet.sealing ops plaintext random output.val = some made) :
    (ratchetKey, counter) ≠ (made.ratchetKey, made.counter) := by
  obtain ⟨chain, sends, rfl, -⟩ := encrypt_of_sealing ops seals
  rintro same
  obtain ⟨rfl, rfl⟩ := Prod.mk.inj same
  rcases (chain_of_fresh fresh seals sends).1 with live | new
  · by_cases actor_same : actor = side
    · subst actor_same
      exact absurd (past.behind chain (live ▸ List.mem_singleton_self _) rfl) (UInt32.lt_irrefl _)
    · obtain rfl := Side.eq_peer_of_ne actor_same
      exact past.ours (senderKeys_eq live ▸ List.mem_singleton_self _)
  · exact new side past.sentUnder

theorem start_apart (memory : Side → Ratchet Key) (pair : Curve25519KeyPair) :
    Apart (start ops memory secret pair : World Key Msg) where
  recorded side := by cases side <;> exact List.Subset.refl _
  apart side key mem := by
    have none : ((start ops memory secret pair : World Key Msg).endpoint .bob).ratchet.senderKeys = [] :=
      congrArg (List.map _) (OlmList.toList_new _)
    cases side with
    | alice =>
      rw [Side.peer, none]
      exact List.not_mem_nil
    | bob =>
      rw [none] at mem
      cases mem

theorem Run.apart (run : Run ops (Fresh ops) world world') (apart : Apart world) : Apart world' := by
  induction run with
  | refl => exact apart
  | step event _ _ fresh ih => exact ih.uses (step_uses event fresh)

theorem Run.past (run : Run ops (Fresh ops) world world') (past : Past world side ratchetKey counter) :
    Past world' side ratchetKey counter := by
  induction run with
  | refl => exact past
  | step event _ _ fresh ih => exact ih.uses (step_uses event fresh)

/-! ### Two calls -/

/-- The keys of two calls differ in every run, their headers if random bytes are fresh and chains are short. -/
theorem keys_used_once (free : ops.Free) {pair : Curve25519KeyPair}
    (reached : Reachable ops (fun _ _ => True) secret pair world)
    (seals : (world.endpoint side).ratchet.sealing ops plaintext random output.val = some made)
    (later : Run ops (fun _ _ => True) (world.step ops (.encrypt side plaintext random output)) world')
    {side' : Side} {plaintext' random' : Bytes} {output' : Buffer} {made' : Sealing Key}
    (seals' : (world'.endpoint side').ratchet.sealing ops plaintext' random' output'.val = some made') :
    made.key ≠ made'.key ∧
      (Reachable ops (Fresh ops) secret pair world → Fresh ops world (.encrypt side plaintext random output) →
        Run ops (Fresh ops) (world.step ops (.encrypt side plaintext random output)) world' →
          Fresh ops world' (.encrypt side' plaintext' random' output') →
            (made.ratchetKey, made.counter) ≠ (made'.ratchetKey, made'.counter)) := by
  constructor
  · obtain ⟨level, position, levelled⟩ := reached.levelled side
    obtain ⟨level₁, position₁, at_place, ours, -, after⟩ := levelled.encrypt seals
    intro same
    by_cases actor : side' = side
    · subst actor
      have here : ((world.step ops (.encrypt side' plaintext random output)).endpoint side').ratchet =
          ((world.endpoint side').ratchet.encrypt ops plaintext random output.val).1 :=
        (encrypt_endpoint ops world side' plaintext random output.val).1
      obtain ⟨level₂, position₂, levelled', later⟩ := later.levelled (here ▸ after)
      obtain ⟨level₃, position₃, at_place', -, later', -⟩ := levelled'.encrypt seals'
      obtain ⟨rfl, rfl⟩ := keyAt_inj free at_place (same ▸ at_place')
      have passed := later.trans later'
      unfold Later at passed
      omega
    · -- the two ends have their turns at different levels
      have reached' : Reachable ops (fun _ _ => True) secret pair world' := by
        obtain ⟨memory, run⟩ := reached
        exact ⟨memory, (Run.step (.encrypt side plaintext random output) run trivial trivial).trans later⟩
      obtain ⟨_, _, levelled'⟩ := reached'.levelled side'
      obtain ⟨level₂, position₂, at_place', theirs, -, -⟩ := levelled'.encrypt seals'
      obtain ⟨rfl, rfl⟩ := keyAt_inj free at_place (same ▸ at_place')
      exact actor (theirs.symm.trans ours)
  · intro reached fresh run fresh'
    obtain ⟨memory, start⟩ := reached
    have apart := start.apart (start_apart memory pair)
    exact (run.past (apart.past fresh seals)).not_used fresh' seals'

theorem keys_used_once_symbolic :
    let chainKey : KeyTerm Bytes Bytes Bytes := .extract false [] [0]
    KeyTerm.hmac chainKey [1] ≠ .hmac (.hmac chainKey [2]) [1] ∧
      (symbolicPair.publicKey, (0 : UInt32)) ≠ (symbolicPair.publicKey, 1) := by
  let start : World (KeyTerm Bytes Bytes Bytes) SymbolicMessage :=
    World.start symbolicRatchet (fun _ => clearedRatchet .zero) [] symbolicPair
  let output : Buffer := ⟨[0], by decide⟩
  have fresh : Fresh symbolicRatchet start (.encrypt .alice [104] [] output) := by
    intro _
    rw [if_neg (by decide)]
    decide
  have fresh' : Fresh symbolicRatchet symbolicWorld (.encrypt .alice [104] [] output) := by
    intro _
    rw [if_neg (by decide)]
    decide
  have seals : (start.endpoint .alice).ratchet.sealing symbolicRatchet [104] [] output.val =
      some ⟨.hmac (.extract false [] [0]) [1], symbolicPair.publicKey, 0⟩ := rfl
  have seals' : (symbolicWorld.endpoint .alice).ratchet.sealing symbolicRatchet [104] [] output.val =
      some ⟨.hmac (.hmac (.extract false [] [0]) [2]) [1], symbolicPair.publicKey, 1⟩ := rfl
  obtain ⟨keys, headers⟩ := keys_used_once symbolicRatchet_free ⟨_, .refl⟩ seals .refl seals'
  exact ⟨keys, headers ⟨_, .refl⟩ fresh .refl fresh'⟩

end World

end RubyOlm
