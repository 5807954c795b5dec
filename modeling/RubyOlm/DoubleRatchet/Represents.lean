import Mathlib.Data.List.InsertIdx
import RubyOlm.DoubleRatchet.Schedule
import RubyOlm.DoubleRatchet.World
import RubyOlm.Theory.Duo

/-!
# Ratchets as parties of an exchange

The simulation: when a ratchet stands for a party, a successful call of it is a step of the party.
-/

namespace RubyOlm

namespace Ratchet

open Exchange

variable {Key Msg : Type} (ops : RatchetOps Key Msg) (secret : Bytes)

def SentAt (place : Place Curve25519KeyPair) (plaintext : Bytes) (message : Msg) : Prop :=
  ops.wire.Writes (placeKey ops secret place) (counterOf place) (ratchetKeyOf place.chain) plaintext message

def placeNames (places : List (Place Curve25519KeyPair)) : List (PublicKey × UInt32) :=
  places.map fun place => (ratchetKeyOf place.chain, counterOf place)

theorem placeNames_between (chain : List Curve25519KeyPair) (first count : Nat) :
    placeNames (between chain first (first + count)) = (List.range count).reverse.map fun distance =>
      (ratchetKeyOf chain, counterOf ⟨chain, first⟩ + UInt32.ofNat distance) := by
  simp only [placeNames, between, List.map_map, Nat.add_sub_cancel_left]
  rw [List.range'_eq_map_range, ← List.map_reverse, List.map_map]
  apply List.map_congr_left
  intro distance _
  simp only [Function.comp, counterOf_add]

/-! ### What a ratchet holds -/

def senderChainOf (side : Side) (party : Party Curve25519KeyPair) : List (SenderChain Key) :=
  match party.history with
  | [] => []
  | pair :: before =>
    if owner (pair :: before) = side then
      [⟨pair, counterOf ⟨pair :: before, party.sending⟩, chainKeyAt ops secret ⟨pair :: before, party.sending⟩⟩]
    else []

def receiverChainOf (next : Place Curve25519KeyPair) : ReceiverChain Key :=
  ⟨ratchetKeyOf next.chain, counterOf next, chainKeyAt ops secret next⟩

def skippedKeyOf (place : Place Curve25519KeyPair) : SkippedMessageKey Key :=
  ⟨ratchetKeyOf place.chain, counterOf place, placeKey ops secret place⟩

structure Represents (side : Side) (ratchet : Ratchet Key) (party : Party Curve25519KeyPair) : Prop where
  root : ratchet.rootKey = (derived ops secret party.history).1
  sender : ratchet.senderChain.toList = senderChainOf ops secret side party
  receivers : ratchet.receiverChains.toList = party.receiving.map (receiverChainOf ops secret)
  skipped : ratchet.skippedMessageKeys.toList = party.skipped.map (skippedKeyOf ops secret)

theorem skippedFrom_receiverChainOf (next : Place Curve25519KeyPair) (count : Nat) :
    skippedFrom ops (receiverChainOf ops secret next) count =
      (between next.chain next.position (next.position + count)).map (skippedKeyOf ops secret) := by
  simp only [skippedFrom, between, receiverChainOf, List.map_map, Nat.add_sub_cancel_left]
  rw [List.range'_eq_map_range, ← List.map_reverse, List.map_map]
  apply List.map_congr_left
  intro distance _
  simp only [Function.comp, skippedKeyOf, messageKeyAt_chainKeyAt, counterOf_add]

variable {ops secret} {side : Side} {ratchet ratchet' : Ratchet Key} {party : Party Curve25519KeyPair}

theorem Represents.sender_of_turn (represents : Represents ops secret side ratchet party)
    {pair : Curve25519KeyPair} {before : List Curve25519KeyPair} (whole : party.history = pair :: before)
    (turn : owner party.history = side) :
    ratchet.senderChain.toList = [⟨pair, counterOf ⟨party.history, party.sending⟩,
      chainKeyAt ops secret ⟨party.history, party.sending⟩⟩] := by
  rw [represents.sender, senderChainOf]
  simp only [whole] at turn ⊢
  rw [if_pos turn]

theorem senderChainOf_eq_nil (turn : owner party.history ≠ side) : senderChainOf ops secret side party = [] := by
  unfold senderChainOf
  split
  · rfl
  · rename_i whole
    rw [whole] at turn
    rw [if_neg turn]

theorem Represents.no_sender (represents : Represents ops secret side ratchet party)
    (turn : owner party.history ≠ side) : ratchet.senderChain.toList = [] := by
  rw [represents.sender, senderChainOf_eq_nil turn]

theorem Represents.turn (represents : Represents ops secret side ratchet party)
    (some : ratchet.senderChain.toList ≠ []) : owner party.history = side := by
  by_contra turn
  exact some (represents.no_sender turn)

theorem Represents.of_error (represents : Represents ops secret side ratchet party)
    (same : ratchet' = { ratchet with lastError := ratchet'.lastError }) :
    Represents ops secret side ratchet' party := by
  rw [same]
  exact ⟨represents.root, represents.sender, represents.receivers, represents.skipped⟩

/-! ### The start -/

theorem represents_alice (memory : Ratchet Key) (pair : Curve25519KeyPair) :
    Represents ops secret .alice ((Ratchet.new memory).initialiseAsAlice ops secret pair)
      ((Duo.start pair).party .alice) where
  root := rfl
  sender := initialiseAsAlice_sender ops memory secret pair
  receivers := OlmList.toList_new _
  skipped := OlmList.toList_new _

theorem represents_bob (memory : Ratchet Key) (pair : Curve25519KeyPair) :
    Represents ops secret .bob ((Ratchet.new memory).initialiseAsBob ops secret pair.publicKey)
      ((Duo.start pair).party .bob) where
  root := rfl
  sender := OlmList.toList_new _
  receivers := initialiseAsBob_receivers ops memory secret pair.publicKey
  skipped := OlmList.toList_new _

/-! ### Encryption -/

theorem encryptOnChain_represents {pair : Curve25519KeyPair} {before : List Curve25519KeyPair}
    (represents : Represents ops secret side ratchet party) (whole : party.history = pair :: before)
    (turn : owner party.history = side) (plaintext output : Bytes) :
    Represents ops secret side (ratchet.encryptOnChain ops plaintext output).1
        { party with sending := party.sending + 1 } ∧
      (ratchet.encryptOnChain ops plaintext output).2 =
        ops.wire.write (placeKey ops secret ⟨party.history, party.sending⟩)
          (counterOf ⟨party.history, party.sending⟩) (ratchetKeyOf party.history) plaintext output := by
  have live := represents.sender_of_turn whole turn
  have sender : ratchet.sender = ⟨pair, counterOf ⟨party.history, party.sending⟩,
      chainKeyAt ops secret ⟨party.history, party.sending⟩⟩ := OlmList.data_zero_eq (by decide) live
  unfold encryptOnChain
  rw [sender]
  refine ⟨⟨represents.root, ?_, represents.receivers, represents.skipped⟩, ?_⟩
  · simp only [senderChainOf, whole] at turn ⊢
    rw [if_pos turn, OlmList.toList_set, live, List.set_cons_zero]
    simp only [advanceChainKey, counterOf_add, chainKeyAt, ops.chain_succ]
    rfl
  · simp only [createMessageKeys, ratchetKeyOf, whole, placeKey]

theorem Represents.sender_index (represents : Represents ops secret side ratchet party) (started : party.history ≠ [])
    (turn : owner party.history = side) :
    ratchet.senderChain.empty = false ∧ ratchet.sender.chainKey.index = counterOf ⟨party.history, party.sending⟩ := by
  obtain ⟨pair, before, whole⟩ := List.exists_cons_of_ne_nil started
  have live := represents.sender_of_turn whole turn
  constructor
  · rw [← Bool.not_eq_true, OlmList.empty_iff, live]
    exact List.cons_ne_nil _ _
  · rw [Ratchet.sender, OlmList.data_zero_eq (by decide) live]

theorem Represents.encryptOutputLength (represents : Represents ops secret side ratchet party)
    (started : party.history ≠ []) (turn : owner party.history = side) (plaintextLength : Nat) :
    ratchet.encryptOutputLength ops plaintextLength =
      ops.wire.outputLength (counterOf ⟨party.history, party.sending⟩) plaintextLength := by
  obtain ⟨some, sender⟩ := represents.sender_index started turn
  rw [Ratchet.encryptOutputLength, some, if_neg Bool.false_ne_true, sender]

theorem encrypt_onChain (represents : Represents ops secret side ratchet party) (started : party.history ≠ [])
    (turn : owner party.history = side) (plaintext random : Bytes) {output : Bytes}
    (room : ratchet.encryptOutputLength ops plaintext.length ≤ output.length) :
    ∃ ratchet', Represents ops secret side ratchet' { party with sending := party.sending + 1 } ∧
      ratchet.encrypt ops plaintext random output = (ratchet', some (ops.wire.write
        (placeKey ops secret ⟨party.history, party.sending⟩) (counterOf ⟨party.history, party.sending⟩)
        (ratchetKeyOf party.history) plaintext
        (output.take (ratchet.encryptOutputLength ops plaintext.length)))) := by
  obtain ⟨pair, before, whole⟩ := List.exists_cons_of_ne_nil started
  obtain ⟨some, -⟩ := represents.sender_index started turn
  obtain ⟨next, sealed⟩ := encryptOnChain_represents represents whole turn plaintext
    (output.take (ratchet.encryptOutputLength ops plaintext.length))
  have enough : ¬ random.length < ratchet.encryptRandomLength := by
    rw [encryptRandomLength, some, if_neg Bool.false_ne_true]
    exact Nat.not_lt_zero _
  refine ⟨_, next, ?_⟩
  simp only [encrypt, if_neg enough, if_neg (Nat.not_lt.mpr room), some, Bool.false_eq_true, if_false]
  rw [← sealed]

theorem startSenderChain_represents (represents : Represents ops secret side ratchet party)
    (ok : party.Ok maxSkippedMessageKeys side) (turn : owner party.history ≠ side) (random : Block 32) :
    Represents ops secret side (ratchet.startSenderChain ops random)
      { party with history := generateKey ops.curve25519 random :: party.history, sending := 0 } := by
  obtain ⟨last, before, whole⟩ := List.exists_cons_of_ne_nil ok.started
  obtain ⟨next, newest⟩ := ok.current (Side.eq_peer_of_ne turn)
  have receiver : ratchet.receiver = receiverChainOf ops secret ⟨party.history, next⟩ := by
    rcases receiving : party.receiving with _ | ⟨first, rest⟩
    · rw [receiving] at newest
      cases newest
    · rw [receiving] at newest
      obtain rfl := Option.some.inj newest
      apply OlmList.data_zero_eq (by decide)
      rw [represents.receivers, receiving, List.map_cons]
  have created : createChainKey ops ratchet.rootKey (generateKey ops.curve25519 random)
      (receiverChainOf ops secret ⟨party.history, next⟩).ratchetKey =
      ((derived ops secret (generateKey ops.curve25519 random :: party.history)).1,
        ⟨0, (derived ops secret (generateKey ops.curve25519 random :: party.history)).2⟩) := by
    rw [represents.root, whole]
    rfl
  unfold startSenderChain
  simp only [receiver, created]
  refine ⟨rfl, ?_, represents.receivers, represents.skipped⟩
  simp only [senderChainOf]
  rw [if_pos (by rw [owner_cons, Side.eq_peer_of_ne turn, Side.peer_peer]),
    OlmList.toList_pushFront _ _ (by decide), represents.no_sender turn]
  rfl

/-- An `encrypt` that succeeds is a step of the party. -/
theorem encrypt_sends (represents : Represents ops secret side ratchet party)
    (ok : party.Ok maxSkippedMessageKeys side) {plaintext random : Bytes} {output : Buffer} {message : Msg}
    (done : ratchet.encrypt ops plaintext random output.val = (ratchet', some message)) :
    ∃ place party', Sends side party place party' ∧ Represents ops secret side ratchet' party' ∧
      SentAt ops secret place plaintext message ∧
      (party'.history = party.history ∨
        owner party.history ≠ side ∧
          party'.history = generateKey ops.curve25519 (Block.load 32 random) :: party.history) := by
  have writes (place : Place Curve25519KeyPair) (counter : ratchet.encryptOutputLength ops plaintext.length =
      ops.wire.outputLength (counterOf place) plaintext.length)
      (room : ¬ output.val.length < ratchet.encryptOutputLength ops plaintext.length) :
      SentAt ops secret place plaintext (ops.wire.write (placeKey ops secret place) (counterOf place)
        (ratchetKeyOf place.chain) plaintext
        (output.val.take (ratchet.encryptOutputLength ops plaintext.length))) := by
    have short := (List.length_take_le' (ratchet.encryptOutputLength ops plaintext.length) output.val).trans_lt
      output.property
    refine ⟨⟨_, short⟩, ?_, rfl⟩
    rw [← counter, List.length_take]
    omega
  unfold encrypt at done
  simp only at done
  split at done
  · cases done
  · split at done
    · cases done
    · rename_i room
      obtain ⟨rfl, same⟩ := Prod.mk.inj done
      obtain rfl := Option.some.inj same
      by_cases turn : owner party.history = side
      · obtain ⟨pair, before, whole⟩ := List.exists_cons_of_ne_nil ok.started
        obtain ⟨some, -⟩ := represents.sender_index ok.started turn
        obtain ⟨next, sealed⟩ := encryptOnChain_represents represents whole turn plaintext
          (output.val.take (ratchet.encryptOutputLength ops plaintext.length))
        simp only [some, Bool.false_eq_true, if_false] at room ⊢
        refine ⟨_, _, .onChain turn, next, ?_, Or.inl rfl⟩
        rw [sealed]
        exact writes _ (represents.encryptOutputLength ok.started turn _) room
      · have none : ratchet.senderChain.empty = true := by
          rw [OlmList.empty_iff, represents.no_sender turn]
        have started := startSenderChain_represents represents ok turn (Block.load 32 random)
        obtain ⟨next, sealed⟩ := encryptOnChain_represents started rfl
          (by rw [owner_cons, Side.eq_peer_of_ne turn, Side.peer_peer]) plaintext
          (output.val.take (ratchet.encryptOutputLength ops plaintext.length))
        simp only [none, if_true] at room ⊢
        refine ⟨_, _, .newChain _ turn, next, ?_, Or.inr ⟨turn, rfl⟩⟩
        rw [sealed]
        refine writes _ ?_ room
        unfold encryptOutputLength
        rw [none, if_pos rfl]
        rfl

/-! ### Decryption -/

section Decrypt

variable {place : Place Curve25519KeyPair} {plaintext : Bytes} {message : Msg} {maxPlaintextLength : Nat}
  {reader : CheckedReader Msg}

theorem checkReader_sentAt (correct : ops.wire.Correct) (sent : SentAt ops secret place plaintext message)
    (checked : checkReader ops message maxPlaintextLength = .ok reader) :
    reader.counter = counterOf place ∧ reader.ratchetKey = ratchetKeyOf place.chain ∧ reader.input = message ∧
      ops.wire.decrypt (placeKey ops secret place) message reader.ciphertext maxPlaintextLength = some plaintext := by
  obtain ⟨ciphertext, read, opens⟩ := correct.reads sent
  obtain ⟨counter, ratchetKey, text, input, room⟩ := checkReader_eq_ok ops checked
  rw [read] at counter ratchetKey text
  simp only [IntField.mk.injEq, and_true, Option.some.injEq] at counter ratchetKey text
  subst text
  exact ⟨counter.symm, Subtype.ext ratchetKey.symm, input, opens _ room⟩

variable (ops secret) in
/-- The new ratchet stands for a party that has received at `place`, passing over what `passedOver` says. -/
def Takes (side : Side) (ratchet : Ratchet Key) (party : Party Curve25519KeyPair) (place : Place Curve25519KeyPair)
    (ratchet' : Ratchet Key) : Prop :=
  ∃ party', Receives maxReceiverChains maxSkippedMessageKeys side party place party' ∧
    Represents ops secret side ratchet' party' ∧
    placeNames party'.passed =
      ratchet.passedOver (ratchetKeyOf place.chain) (counterOf place) ++ placeNames party.passed

variable {whole : List Curve25519KeyPair}

/-- The place of a message whose key is on a new chain. -/
theorem newChain_place (free : ops.Free) (represents : Represents ops secret side ratchet party)
    (ok : party.Ok maxSkippedMessageKeys side) (known : party.history <:+ whole) (started : place.chain ≠ [])
    (suffix : place.chain <:+ whole) {rootKey : Key} {chainKey : ChainKey Key}
    (created : createChainKey ops ratchet.rootKey ratchet.sender.ratchetKey (ratchetKeyOf place.chain) =
      (rootKey, chainKey))
    (key : messageKeyAt ops chainKey.key (counterOf place).toNat = placeKey ops secret place) :
    (counterOf place).toNat = place.position ∧ place.chain.tail = party.history ∧
      rootKey = (derived ops secret place.chain).1 ∧ chainKey = ⟨0, (derived ops secret place.chain).2⟩ := by
  unfold createChainKey at created
  rw [represents.root] at created
  obtain ⟨rfl, rfl⟩ := Prod.mk.inj created
  -- the key that opened the message starts its chain
  obtain ⟨position, start⟩ := free.hmac_chain_inj (free.snd_root _ _ _) (derived_root secret free started) key
  obtain ⟨follows, same⟩ := chain_follows secret free started ok.started suffix known start
  exact ⟨position, follows, congrArg Prod.fst same, congrArg (ChainKey.mk 0) start⟩

/-- What starting the chain of a place does, when it comes next. -/
theorem newChain_takes (represents : Represents ops secret side ratchet party) (started : place.chain ≠ [])
    (follows : place.chain.tail = party.history) (turn : owner party.history = side)
    (position : (counterOf place).toNat = place.position)
    (unknown : findChain (ratchetKeyOf place.chain) ratchet.receiverChains.toList = none)
    (root : ratchet'.rootKey = (derived ops secret place.chain).1) (sender : ratchet'.senderChain.toList = [])
    (receivers : ratchet'.receiverChains.toList =
      (⟨ratchetKeyOf place.chain, counterOf place + 1,
        ops.chain chainKeySeed ((counterOf place).toNat + 1) (derived ops secret place.chain).2⟩ ::
          ratchet.receiverChains.toList).take maxReceiverChains)
    (skipped : ratchet'.skippedMessageKeys.toList =
      (skippedFrom ops ⟨ratchetKeyOf place.chain, ⟨0, (derived ops secret place.chain).2⟩⟩ (counterOf place).toNat ++
        ratchet.skippedMessageKeys.toList).take maxSkippedMessageKeys) :
    Takes ops secret side ratchet party place ratchet' := by
  have theirs : owner place.chain ≠ side := by
    obtain ⟨newest, rest, cons⟩ := List.exists_cons_of_ne_nil started
    rw [cons, List.tail_cons] at follows
    rw [cons, follows, owner_cons, turn]
    exact Side.peer_ne side
  refine ⟨_, .move (.newChain follows turn started), ⟨root, ?_, ?_, ?_⟩, ?_⟩
  · rw [sender, senderChainOf_eq_nil theirs]
  · rw [receivers, represents.receivers, List.map_take, List.map_cons, position]
    simp only [receiverChainOf, counterOf_add, chainKeyAt]
    rfl
  · have first : (⟨ratchetKeyOf place.chain, 0, (derived ops secret place.chain).2⟩ : ReceiverChain Key) =
        receiverChainOf ops secret ⟨place.chain, 0⟩ := rfl
    rw [skipped, represents.skipped, List.map_take, List.map_append, position, first,
      skippedFrom_receiverChainOf, Nat.zero_add]
  · have names := placeNames_between place.chain 0 place.position
    rw [Nat.zero_add] at names
    rw [placeNames, List.map_append, ← placeNames, names, passedOver, unknown]
    simp only [UInt32.toNat_zero, Nat.sub_zero, position]
    rfl

theorem newChain_receives (free : ops.Free) (represents : Represents ops secret side ratchet party)
    (ok : party.Ok maxSkippedMessageKeys side) (known : party.history <:+ whole) (started : place.chain ≠ [])
    (suffix : place.chain <:+ whole) {rootKey : Key} {chainKey : ChainKey Key}
    (unknown : findChain (ratchetKeyOf place.chain) ratchet.receiverChains.toList = none)
    (created : createChainKey ops ratchet.rootKey ratchet.sender.ratchetKey (ratchetKeyOf place.chain) =
      (rootKey, chainKey))
    (turn : ratchet.senderChain.toList ≠ [])
    (key : messageKeyAt ops chainKey.key (counterOf place).toNat = placeKey ops secret place)
    (root : ratchet'.rootKey = rootKey) (sender : ratchet'.senderChain.toList = [])
    (receivers : ratchet'.receiverChains.toList =
      (⟨ratchetKeyOf place.chain, counterOf place + 1,
        ops.chain chainKeySeed ((counterOf place).toNat + 1) chainKey.key⟩ ::
          ratchet.receiverChains.toList).take maxReceiverChains)
    (skipped : ratchet'.skippedMessageKeys.toList =
      (skippedFrom ops ⟨ratchetKeyOf place.chain, chainKey⟩ (counterOf place).toNat ++
        ratchet.skippedMessageKeys.toList).take maxSkippedMessageKeys) :
    Takes ops secret side ratchet party place ratchet' := by
  obtain ⟨position, follows, rfl, rfl⟩ := newChain_place free represents ok known started suffix created key
  exact newChain_takes represents started follows (represents.turn turn) position unknown root sender receivers skipped

/-- The place of a message whose key is on a chain that is kept. -/
theorem liveChain_place (free : ops.Free) (represents : Represents ops secret side ratchet party)
    (ok : party.Ok maxSkippedMessageKeys side) (known : party.history <:+ whole) (started : place.chain ≠ [])
    (suffix : place.chain <:+ whole) {pos count : Nat} {chain : ReceiverChain Key}
    (found : findChain (ratchetKeyOf place.chain) ratchet.receiverChains.toList = some (pos, chain))
    (key : messageKeyAt ops chain.chainKey.key count = placeKey ops secret place) :
    ∃ next, party.receiving[pos]? = some next ∧ chain = receiverChainOf ops secret next ∧
      place = ⟨next.chain, next.position + count⟩ := by
  have live := (findChain_eq_some found).1
  rw [represents.receivers, List.getElem?_map, Option.map_eq_some_iff] at live
  obtain ⟨next, read, rfl⟩ := live
  obtain ⟨next_started, next_suffix, -⟩ := ok.known next (List.mem_of_getElem? read)
  simp only [receiverChainOf, messageKeyAt_chainKeyAt] at key
  have next_started : (⟨next.chain, next.position + count⟩ : Place Curve25519KeyPair).chain ≠ [] := next_started
  exact ⟨next, read, rfl, (placeKey_inj secret free next_started started (next_suffix.trans known) suffix key).symm⟩

/-- What moving the chain of a place does. -/
theorem liveChain_takes (represents : Represents ops secret side ratchet party) {pos count : Nat}
    {next : Place Curve25519KeyPair} (read : party.receiving[pos]? = some next)
    (there : place = ⟨next.chain, next.position + count⟩)
    (found : findChain (ratchetKeyOf place.chain) ratchet.receiverChains.toList =
      some (pos, receiverChainOf ops secret next))
    (ahead : (counterOf place).toNat = (counterOf next).toNat + count)
    (root : ratchet'.rootKey = ratchet.rootKey) (sender : ratchet'.senderChain = ratchet.senderChain)
    (receivers : ratchet'.receiverChains.toList = ratchet.receiverChains.toList.set pos
      ⟨ratchetKeyOf place.chain, counterOf place + 1,
        ops.chain chainKeySeed (count + 1) (chainKeyAt ops secret next)⟩)
    (skipped : ratchet'.skippedMessageKeys.toList =
      (skippedFrom ops (receiverChainOf ops secret next) count ++
        ratchet.skippedMessageKeys.toList).take maxSkippedMessageKeys) :
    Takes ops secret side ratchet party place ratchet' := by
  subst there
  refine ⟨_, .move (.onChain read (Nat.le_add_right _ _)), ⟨?_, ?_, ?_, ?_⟩, ?_⟩
  · rw [root, represents.root]
  · rw [sender, represents.sender]
    rfl
  · rw [receivers, represents.receivers, List.map_set]
    simp only [receiverChainOf, chain_chainKeyAt, Nat.add_assoc, counterOf_add]
    rw [UInt32.add_assoc, UInt32.ofNat_add]
    rfl
  · rw [skipped, represents.skipped, List.map_take, List.map_append, skippedFrom_receiverChainOf]
  · rw [placeNames, List.map_append, ← placeNames, placeNames_between, passedOver, found]
    simp only [ahead, receiverChainOf, Nat.add_sub_cancel_left]
    rfl

theorem liveChain_receives (free : ops.Free) (represents : Represents ops secret side ratchet party)
    (ok : party.Ok maxSkippedMessageKeys side) (known : party.history <:+ whole) (started : place.chain ≠ [])
    (suffix : place.chain <:+ whole) {pos count : Nat} {chain : ReceiverChain Key}
    (found : findChain (ratchetKeyOf place.chain) ratchet.receiverChains.toList = some (pos, chain))
    (ahead : (counterOf place).toNat = chain.chainKey.index.toNat + count)
    (key : messageKeyAt ops chain.chainKey.key count = placeKey ops secret place)
    (root : ratchet'.rootKey = ratchet.rootKey) (sender : ratchet'.senderChain = ratchet.senderChain)
    (receivers : ratchet'.receiverChains.toList = ratchet.receiverChains.toList.set pos
      ⟨ratchetKeyOf place.chain, counterOf place + 1, ops.chain chainKeySeed (count + 1) chain.chainKey.key⟩)
    (skipped : ratchet'.skippedMessageKeys.toList =
      (skippedFrom ops chain count ++ ratchet.skippedMessageKeys.toList).take maxSkippedMessageKeys) :
    Takes ops secret side ratchet party place ratchet' := by
  -- the chain is that of the message, and the keys passed over lead up to it
  obtain ⟨next, read, rfl, there⟩ := liveChain_place free represents ok known started suffix found key
  exact liveChain_takes represents read there found ahead root sender receivers skipped

/-- What taking a key from the skipped ones does. -/
theorem skippedKey_takes (represents : Represents ops secret side ratchet party) {pos : Nat}
    (read : party.skipped[pos]? = some place)
    (behind : ∃ found, findChain (ratchetKeyOf place.chain) ratchet.receiverChains.toList = some found ∧
      counterOf place < found.2.chainKey.index)
    (root : ratchet'.rootKey = ratchet.rootKey) (sender : ratchet'.senderChain = ratchet.senderChain)
    (receivers : ratchet'.receiverChains = ratchet.receiverChains)
    (skipped : ratchet'.skippedMessageKeys.toList = ratchet.skippedMessageKeys.toList.eraseIdx pos) :
    Takes ops secret side ratchet party place ratchet' := by
  refine ⟨_, .fetch read, ⟨?_, ?_, ?_, ?_⟩, ?_⟩
  · rw [root, represents.root]
  · rw [sender, represents.sender]
    rfl
  · rw [receivers, represents.receivers]
  · rw [skipped, represents.skipped, List.eraseIdx_map]
  · obtain ⟨chain, found, behind⟩ := behind
    rw [UInt32.lt_iff_toNat_lt] at behind
    unfold passedOver
    rw [found]
    simp only [Nat.sub_eq_zero_of_le (Nat.le_of_lt behind)]
    rfl

theorem skippedKey_receives (free : ops.Free) (represents : Represents ops secret side ratchet party)
    (ok : party.Ok maxSkippedMessageKeys side) (known : party.history <:+ whole) (started : place.chain ≠ [])
    (suffix : place.chain <:+ whole) {pos : Nat} {skippedKey : SkippedMessageKey Key}
    (behind : ∃ found, findChain (ratchetKeyOf place.chain) ratchet.receiverChains.toList = some found ∧
      counterOf place < found.2.chainKey.index)
    (found : ratchet.skippedMessageKeys.toList[pos]? = some skippedKey)
    (key : skippedKey.messageKey.key = placeKey ops secret place)
    (root : ratchet'.rootKey = ratchet.rootKey) (sender : ratchet'.senderChain = ratchet.senderChain)
    (receivers : ratchet'.receiverChains = ratchet.receiverChains)
    (skipped : ratchet'.skippedMessageKeys.toList = ratchet.skippedMessageKeys.toList.eraseIdx pos) :
    Takes ops secret side ratchet party place ratchet' := by
  rw [represents.skipped, List.getElem?_map, Option.map_eq_some_iff] at found
  obtain ⟨kept, read, rfl⟩ := found
  obtain ⟨kept_started, kept_suffix, -, -⟩ := ok.skipped_behind kept (List.mem_of_getElem? read)
  obtain rfl := placeKey_inj secret free kept_started started (kept_suffix.trans known) suffix key
  exact skippedKey_takes represents read behind root sender receivers skipped

/-- A `decrypt` of a message of the exchange that succeeds is a step of the party, and gives the
plaintext. -/
theorem decrypt_receives (free : ops.Free) (ideal : ops.wire.Ideal)
    (represents : Represents ops secret side ratchet party) (ok : party.Ok maxSkippedMessageKeys side)
    (known : party.history <:+ whole) (started : place.chain ≠ []) (suffix : place.chain <:+ whole)
    (sent : SentAt ops secret place plaintext message) {plaintext' : Bytes}
    (done : ratchet.decrypt ops message maxPlaintextLength = (ratchet', some plaintext')) :
    plaintext' = plaintext ∧ Takes ops secret side ratchet party place ratchet' := by
  obtain ⟨⟨input, _, _, ciphertext⟩, checked, decrypted⟩ := decrypt_eq_some ops done
  obtain ⟨rfl, rfl, rfl, opens⟩ := checkReader_sentAt ideal.toCorrect sent checked
  have same_plaintext {key : Key} (opened : ops.wire.decrypt key input ciphertext maxPlaintextLength = some plaintext') :
      plaintext' = plaintext := by
    rw [ideal.only sent opened, opens] at opened
    exact (Option.some.inj opened).symm
  cases decrypted with
  | newChain rootKey chainKey unknown created turn opened root sender receivers skipped =>
    exact ⟨same_plaintext opened, newChain_receives free represents ok known started suffix unknown created turn
      (ideal.only sent opened) root sender receivers skipped⟩
  | liveChain pos chain count found ahead opened root sender receivers skipped =>
    exact ⟨same_plaintext opened, liveChain_receives free represents ok known started suffix
      found ahead (ideal.only sent opened) root sender receivers skipped⟩
  | skippedKey pos key behind stored opened root sender receivers skipped =>
    exact ⟨same_plaintext opened, skippedKey_receives free represents ok known started suffix behind stored
      (ideal.only sent opened) root sender receivers skipped⟩

end Decrypt

end Ratchet

end RubyOlm
