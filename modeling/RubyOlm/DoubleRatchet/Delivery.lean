import RubyOlm.DoubleRatchet.Simulation
import RubyOlm.DoubleRatchet.Symbolic

/-!
# Delivery

In runs with new ratchet keys and no counter overflow, an end decrypts every message whose chain it keeps, or
has not seen yet, as long as it is not too far ahead and its key has not been pushed out.
-/

namespace RubyOlm.Ratchet

open Exchange

variable {Key Msg : Type} {ops : RatchetOps Key Msg} {secret : Bytes} {side : Side} {ratchet : Ratchet Key}
  {party : Party Curve25519KeyPair} {place : Place Curve25519KeyPair} {plaintext : Bytes} {message : Msg}
  {maxPlaintextLength : Nat}

/-! ### The three routes -/

section Routes

variable {reader : CheckedReader Msg} (checked : checkReader ops message maxPlaintextLength = .ok reader)
include checked

theorem decrypt_newChain (unknown : findChain reader.ratchetKey ratchet.receiverChains.toList = none)
    (verified : verifyMacAndDecryptForNewChain ops ratchet reader maxPlaintextLength = some plaintext) :
    (ratchet.decrypt ops message maxPlaintextLength).2 = some plaintext := by
  simp only [decrypt, checked, decryptChecked, unknown, verified]

theorem decrypt_liveChain {pos : Nat} {chain : ReceiverChain Key}
    (found : findChain reader.ratchetKey ratchet.receiverChains.toList = some (pos, chain))
    (ahead : ¬ chain.chainKey.index > reader.counter)
    (verified : verifyMacAndDecryptForExistingChain ops chain.chainKey reader maxPlaintextLength = some plaintext) :
    (ratchet.decrypt ops message maxPlaintextLength).2 = some plaintext := by
  simp only [decrypt, checked, decryptChecked, found, if_neg ahead, verified]

theorem decrypt_skippedKey {pos : Nat} {chain : ReceiverChain Key}
    (found : findChain reader.ratchetKey ratchet.receiverChains.toList = some (pos, chain))
    (behind : chain.chainKey.index > reader.counter)
    (tried : trySkipped ops reader maxPlaintextLength ratchet.skippedMessageKeys.toList ≠ none) :
    (ratchet.decrypt ops message maxPlaintextLength).2 ≠ none := by
  rcases result : trySkipped ops reader maxPlaintextLength ratchet.skippedMessageKeys.toList with
    _ | ⟨skipped, plaintext⟩
  · exact absurd result tried
  · simp only [decrypt, checked, decryptChecked, found, if_pos behind, result]
    exact Option.some_ne_none _

end Routes

theorem checkReader_of_sentAt (correct : ops.wire.Correct) (sent : SentAt ops secret place plaintext message)
    (room : ∀ length, (ratchet.decryptMaxPlaintextLength ops message).2 = some length → length ≤ maxPlaintextLength) :
    ∃ ciphertext, checkReader ops message maxPlaintextLength =
        .ok ⟨message, counterOf place, ratchetKeyOf place.chain, ciphertext⟩ ∧
      ops.wire.decrypt (placeKey ops secret place) message ciphertext maxPlaintextLength = some plaintext := by
  obtain ⟨ciphertext, read, opens⟩ := correct.reads sent
  have fits : ops.wire.maxPlaintextLength ciphertext.length ≤ maxPlaintextLength := by
    apply room
    simp only [decryptMaxPlaintextLength, read]
  refine ⟨ciphertext, ?_, opens _ fits⟩
  simp only [checkReader, read, ne_eq, not_true_eq_false, if_false, if_neg (Nat.not_lt.mpr fits),
    Block.length_val, Block.load_val]

theorem createChainKey_of_represents (commutes : Commutes ops.curve25519)
    (represents : Represents ops secret side ratchet party) (turn : owner party.history = side)
    {ours theirs : Curve25519KeyPair} {before : List Curve25519KeyPair} (history : party.history = ours :: before)
    (ours_generated : ours.Generated ops.curve25519) (theirs_generated : theirs.Generated ops.curve25519) :
    createChainKey ops ratchet.rootKey ratchet.sender.ratchetKey theirs.publicKey =
      ((derived ops secret (theirs :: party.history)).1, ⟨0, (derived ops secret (theirs :: party.history)).2⟩) := by
  have live := represents.sender_of_turn history turn
  have sender : ratchet.sender.ratchetKey = ours := by
    rw [sender, OlmList.data_zero_eq (by decide) live]
  rw [createChainKey, sender, represents.root, sharedSecret_comm commutes ours_generated theirs_generated, history]
  rfl

section Delivered

variable (correct : ops.wire.Correct) (represents : Represents ops secret side ratchet party)
  (sent : SentAt ops secret place plaintext message) (small : place.position < 2 ^ 32)
  (room : ∀ length, (ratchet.decryptMaxPlaintextLength ops message).2 = some length → length ≤ maxPlaintextLength)
include correct represents sent small room

theorem newChain_delivered (commutes : Commutes ops.curve25519) (turn : owner party.history = side)
    (generated : ∀ pair ∈ place.chain, pair.Generated ops.curve25519) (started : party.history ≠ [])
    (follows : place.chain.tail = party.history)
    (unknown : findChain (ratchetKeyOf place.chain) ratchet.receiverChains.toList = none)
    (near : place.position ≤ maxMessageGap) :
    (ratchet.decrypt ops message maxPlaintextLength).2 = some plaintext := by
  obtain ⟨ciphertext, checked, opens⟩ := checkReader_of_sentAt correct sent room
  obtain ⟨ours, before, history⟩ := List.exists_cons_of_ne_nil started
  obtain ⟨theirs, rest, chain⟩ : ∃ theirs rest, place.chain = theirs :: rest := by
    apply List.exists_cons_of_ne_nil
    rintro empty
    rw [empty, List.tail_nil] at follows
    exact started follows.symm
  obtain rfl : rest = party.history := by rw [← follows, chain, List.tail_cons]
  rw [chain] at generated
  have created := createChainKey_of_represents commutes represents turn history
    (generated ours (by rw [history]; exact List.mem_cons_of_mem _ List.mem_cons_self))
    (generated theirs List.mem_cons_self)
  apply decrypt_newChain checked unknown
  refine (verifyNewChain_eq_some_iff ops).mpr ⟨?_, ?_, ?_⟩
  · rw [represents.sender_of_turn history turn]
    exact List.cons_ne_nil _ _
  · simp only [toNat_counterOf small]
    exact near
  · simp only [chain, ratchetKeyOf, created, toNat_counterOf small]
    unfold Opens
    simp only [← opens, placeKey, chainKeyAt, messageKeyAt, chain]

omit represents in
theorem liveChain_delivered {pos : Nat} {next : Place Curve25519KeyPair} (same : next.chain = place.chain)
    (found : findChain (ratchetKeyOf place.chain) ratchet.receiverChains.toList =
      some (pos, receiverChainOf ops secret next))
    (ahead : next.position ≤ place.position) (near : place.position ≤ next.position + maxMessageGap) :
    (ratchet.decrypt ops message maxPlaintextLength).2 = some plaintext := by
  obtain ⟨ciphertext, checked, opens⟩ := checkReader_of_sentAt correct sent room
  have next_small : next.position < 2 ^ 32 := by omega
  have le : (receiverChainOf ops secret next).chainKey.index ≤ counterOf place := by
    rw [UInt32.le_iff_toNat_le, receiverChainOf, toNat_counterOf next_small, toNat_counterOf small]
    exact ahead
  have count : turns (receiverChainOf ops secret next).chainKey (counterOf place) =
      place.position - next.position := by
    rw [turns, receiverChainOf, toNat_counterOf next_small, toNat_counterOf small]
  apply decrypt_liveChain checked found
  · rw [UInt32.le_iff_toNat_le] at le
    intro behind
    exact absurd (UInt32.lt_iff_toNat_lt.mp behind) (Nat.not_lt.mpr le)
  · refine (verifyExistingChain_eq_some_iff ops).mpr ⟨le, ?_, ?_⟩
    · rw [count]
      omega
    · rw [count, Opens]
      simp only [receiverChainOf, messageKeyAt_chainKeyAt]
      rw [same, Nat.add_sub_cancel' ahead]
      exact opens

omit small in
theorem skippedKey_delivered {pos : Nat} {chain : ReceiverChain Key} (kept : place ∈ party.skipped)
    (found : findChain (ratchetKeyOf place.chain) ratchet.receiverChains.toList = some (pos, chain))
    (behind : chain.chainKey.index > counterOf place) :
    (ratchet.decrypt ops message maxPlaintextLength).2 ≠ none := by
  obtain ⟨ciphertext, checked, opens⟩ := checkReader_of_sentAt correct sent room
  apply decrypt_skippedKey checked found behind
  intro failed
  have stored : skippedKeyOf ops secret place ∈ ratchet.skippedMessageKeys.toList := by
    rw [represents.skipped]
    exact List.mem_map_of_mem kept
  have closed := trySkipped_eq_none ops failed stored rfl rfl
  simp only [verifyMacAndDecrypt, skippedKeyOf, opens] at closed
  cases closed

end Delivered

end RubyOlm.Ratchet

namespace RubyOlm.World

open Exchange Ratchet

variable {Key Msg : Type} (ops : RatchetOps Key Msg)

structure ChainOf (side : Side) (history chain : List Curve25519KeyPair) : Prop where
  started : chain ≠ []
  known : chain <:+ history
  owner : owner chain = side

/-- What the restrictions on a run keep: the ratchet keys of a side are all different and on record, and no
counter has overflowed. -/
structure EndInOrder (side : Side) (endpoint : Endpoint Key Msg) (party : Party Curve25519KeyPair) : Prop where
  generated : ∀ pair ∈ party.history, pair.Generated ops.curve25519
  sent_under : ∀ chain, ChainOf side party.history chain → ratchetKeyOf chain ∈ endpoint.sentUnder
  fresh : ∀ chain chain', ChainOf side party.history chain → ChainOf side party.history chain' →
    ratchetKeyOf chain = ratchetKeyOf chain' → chain = chain'
  seen : ∀ chain, ChainOf side.peer party.history chain → ratchetKeyOf chain ∈ endpoint.seen
  receiving_small : ∀ next ∈ party.receiving, next.position < 2 ^ 32
  sending_small : owner party.history = side → party.sending < 2 ^ 32

structure InOrder (world : World Key Msg) (duo : Duo Curve25519KeyPair) : Prop where
  ends : ∀ side, EndInOrder ops side (world.endpoint side) (duo.party side)
  sent_small : ∀ place ∈ duo.sent, place.position + 1 < 2 ^ 32

variable {ops} {secret : Bytes} {world world' : World Key Msg} {duo duo' : Duo Curve25519KeyPair} {event : Event Msg}
  {side : Side} {party party' : Party Curve25519KeyPair} {place : Place Curve25519KeyPair}

theorem ChainOf.cons {pair : Curve25519KeyPair} {history chain : List Curve25519KeyPair}
    (chainOf : ChainOf side (pair :: history) chain) : chain = pair :: history ∨ ChainOf side history chain := by
  rcases List.suffix_cons_iff.mp chainOf.known with latest | older
  · exact Or.inl latest
  · exact Or.inr ⟨chainOf.started, older, chainOf.owner⟩

theorem ChainOf.single {pair : Curve25519KeyPair} {chain : List Curve25519KeyPair}
    (chainOf : ChainOf side [pair] chain) : chain = [pair] ∧ side = .alice := by
  rcases chainOf.cons with rfl | older
  · exact ⟨rfl, chainOf.owner.symm⟩
  · exact absurd (List.suffix_nil.mp older.known) older.started

theorem start_inOrder (memory : Side → Ratchet Key) {pair : Curve25519KeyPair}
    (generated : pair.Generated ops.curve25519) :
    InOrder ops (start ops memory secret pair) (Duo.start pair) where
  sent_small := nofun
  ends side := by
    have all : ∀ pair' ∈ [pair], pair'.Generated ops.curve25519 := by
      intro pair' mem
      rw [List.mem_singleton.mp mem]
      exact generated
    have unique (other : Side) (chain chain' : List Curve25519KeyPair) (chainOf : ChainOf other [pair] chain)
        (chainOf' : ChainOf other [pair] chain') (_ : ratchetKeyOf chain = ratchetKeyOf chain') : chain = chain' := by
      rw [chainOf.single.1, chainOf'.single.1]
    cases side with
    | alice =>
      refine ⟨all, ?_, unique _, ?_, nofun, fun _ => Nat.two_pow_pos 32⟩
      · intro chain chainOf
        rw [chainOf.single.1]
        have represents : Represents ops secret .alice _ _ := represents_alice (memory .alice) pair
        have live := represents.sender_of_turn rfl rfl
        show pair.publicKey ∈ Ratchet.senderKeys _
        rw [senderKeys, live]
        exact List.mem_singleton_self _
      · intro chain chainOf
        cases chainOf.single.2
    | bob =>
      refine ⟨all, ?_, unique _, ?_, ?_, fun _ => Nat.two_pow_pos 32⟩
      · intro chain chainOf
        cases chainOf.single.2
      · intro chain chainOf
        rw [chainOf.single.1]
        have represents : Represents ops secret .bob _ _ := represents_bob (memory .bob) pair
        have live := represents.receivers
        show pair.publicKey ∈ Ratchet.receiverKeys _
        rw [receiverKeys, live]
        exact List.mem_singleton_self _
      · intro next mem
        rw [List.mem_singleton.mp mem]
        exact Nat.two_pow_pos 32

/-! ### Order is kept -/

theorem EndInOrder.of_ratchet {endpoint : Endpoint Key Msg} (order : EndInOrder ops side endpoint party)
    (ratchet : Ratchet Key) : EndInOrder ops side { endpoint with ratchet } party :=
  ⟨order.generated, order.sent_under, order.fresh, order.seen, order.receiving_small, order.sending_small⟩

theorem InOrder.ends_set (order : InOrder ops world duo) {endpoint : Endpoint Key Msg}
    (next : EndInOrder ops side endpoint party) (other : Side) :
    EndInOrder ops other ((world.set side endpoint).endpoint other) ((duo.set side party).party other) := by
  by_cases same : other = side
  · subst same
    rw [set_endpoint_self, Duo.set_party_self]
    exact next
  · rw [set_endpoint_of_ne _ same, Duo.set_party_of_ne _ same]
    exact order.ends other

theorem EndInOrder.sends {endpoint : Endpoint Key Msg} (order : EndInOrder ops side endpoint party)
    (ok : party.Ok maxSkippedMessageKeys side) (before : Represents ops secret side endpoint.ratchet party)
    {random : Bytes} {ratchet' : Ratchet Key}
    (orderly : if endpoint.ratchet.senderChain.empty then
        (generateKey ops.curve25519 (Block.load 32 random)).publicKey ∉ endpoint.sentUnder
      else endpoint.ratchet.sender.chainKey.index.toNat + 1 < 2 ^ 32)
    (sends : Sends side party place party') (represents : Represents ops secret side ratchet' party')
    (history : party'.history = party.history ∨ owner party.history ≠ side ∧
      party'.history = generateKey ops.curve25519 (Block.load 32 random) :: party.history) :
    EndInOrder ops side
        { endpoint with ratchet := ratchet', sentUnder := ratchet'.senderKeys ++ endpoint.sentUnder } party' ∧
      place.position + 1 < 2 ^ 32 := by
  cases sends with
  | onChain turn =>
    obtain ⟨some, sender⟩ := before.sender_index ok.started turn
    have small := order.sending_small turn
    rw [some, if_neg Bool.false_ne_true, sender, toNat_counterOf small] at orderly
    refine ⟨⟨order.generated, ?_, order.fresh, order.seen, order.receiving_small, fun _ => orderly⟩, orderly⟩
    exact fun chain chainOf => List.mem_append_right _ (order.sent_under chain chainOf)
  | newChain pair turn =>
    have none : endpoint.ratchet.senderChain.empty = true := by
      rw [OlmList.empty_iff, before.no_sender turn]
    rw [none, if_pos rfl] at orderly
    have mine : owner (pair :: party.history) = side := by
      rw [owner_cons, Side.eq_peer_of_ne turn, Side.peer_peer]
    obtain rfl : pair = generateKey ops.curve25519 (Block.load 32 random) := by
      rcases history with same | ⟨-, same⟩
      · exact absurd same (List.cons_ne_self _ _)
      · exact (List.cons.inj same).1
    refine ⟨⟨?_, ?_, ?_, ?_, order.receiving_small, fun _ => ?_⟩, Nat.one_lt_two_pow (by decide)⟩
    · intro pair mem
      rcases List.mem_cons.mp mem with rfl | old
      · exact generateKey_generated _ _
      · exact order.generated pair old
    · intro chain chainOf
      rcases chainOf.cons with rfl | older
      · refine List.mem_append_left _ ?_
        rw [senderKeys, represents.sender_of_turn rfl mine]
        exact List.mem_singleton_self _
      · exact List.mem_append_right _ (order.sent_under chain older)
    · have differ {chain : List Curve25519KeyPair} (older : ChainOf side party.history chain) :
          (generateKey ops.curve25519 (Block.load 32 random)).publicKey ≠ ratchetKeyOf chain := by
        intro same
        rw [same] at orderly
        exact orderly (order.sent_under chain older)
      intro chain chain' chainOf chainOf' same
      rcases chainOf.cons with rfl | older <;> rcases chainOf'.cons with rfl | older'
      · rfl
      · exact absurd same (differ older')
      · exact absurd same.symm (differ older)
      · exact order.fresh chain chain' older older' same
    · intro chain chainOf
      rcases chainOf.cons with rfl | older
      · exact absurd (chainOf.owner.symm.trans mine) (Side.peer_ne side)
      · exact order.seen chain older
    · exact Nat.one_lt_two_pow (by decide)

theorem EndInOrder.receives {endpoint : Endpoint Key Msg} (order : EndInOrder ops side endpoint party)
    (ok : party.Ok maxSkippedMessageKeys side) {message : Msg} {ratchet' : Ratchet Key}
    (generated : ∀ pair ∈ place.chain, pair.Generated ops.curve25519) (small : place.position + 1 < 2 ^ 32)
    (receives : Receives maxReceiverChains maxSkippedMessageKeys side party place party')
    (represents : Represents ops secret side ratchet' party') (passed : List (PublicKey × UInt32)) :
    EndInOrder ops side
      { endpoint with
        ratchet := ratchet'
        opened := message :: endpoint.opened
        seen := ratchet'.receiverKeys ++ endpoint.seen
        passed := passed } party' := by
  have ok' := receives.ok ok (by decide)
  -- a chain that is not known from before is the other side's, and its newest
  have known {other : Side} {chain : List Curve25519KeyPair} (chainOf : ChainOf other party'.history chain) :
      ChainOf other party.history chain ∨
        chain = party'.history ∧ owner party'.history = side.peer := by
    rcases receives.history with same | ⟨follows, turn, received⟩
    · rw [same] at chainOf
      exact Or.inl chainOf
    · obtain ⟨newest, rest, cons⟩ := List.exists_cons_of_ne_nil ok'.started
      rw [← received, cons, List.tail_cons] at follows
      rw [cons] at chainOf ⊢
      rcases chainOf.cons with latest | older
      · exact Or.inr ⟨latest, by rw [owner_cons, follows, turn]⟩
      · exact Or.inl (follows ▸ older)
  have own {chain : List Curve25519KeyPair} (chainOf : ChainOf side party'.history chain) :
      ChainOf side party.history chain := by
    rcases known chainOf with old | ⟨latest, theirs⟩
    · exact old
    · rw [← latest, chainOf.owner] at theirs
      exact absurd theirs.symm (Side.peer_ne side)
  refine ⟨?_, ?_, ?_, ?_, ?_, ?_⟩
  · rcases receives.history with same | ⟨-, -, received⟩
    · rw [same]
      exact order.generated
    · rw [received]
      exact generated
  · exact fun chain chainOf => order.sent_under chain (own chainOf)
  · exact fun chain chain' chainOf chainOf' same => order.fresh chain chain' (own chainOf) (own chainOf') same
  · intro chain chainOf
    rcases known chainOf with old | ⟨latest, theirs⟩
    · exact List.mem_append_right _ (order.seen chain old)
    · obtain ⟨next, newest⟩ := ok'.current theirs
      refine List.mem_append_left _ ?_
      rw [latest, receiverKeys, represents.receivers, List.map_map]
      exact List.mem_map.mpr ⟨_, List.mem_of_getElem? newest, rfl⟩
  · intro next mem
    rcases receives.receiving_mem ok mem with rfl | old
    · exact small
    · exact order.receiving_small next old
  · intro mine
    rw [receives.sending]
    apply order.sending_small
    rcases receives.history with same | ⟨follows, turn, received⟩
    · rw [← same]
      exact mine
    · exact turn

theorem Advances.inOrder (tracks : Tracks ops secret world duo) (order : InOrder ops world duo)
    (orderly : world.Orderly ops event) (advances : Advances ops secret world duo event world' duo') :
    InOrder ops world' duo' := by
  cases advances with
  | idle side ratchet' same =>
    refine ⟨?_, order.sent_small⟩
    intro other
    by_cases h : other = side
    · subst h
      rw [set_endpoint_self]
      exact (order.ends other).of_ratchet ratchet'
    · rw [set_endpoint_of_ne _ h]
      exact order.ends other
  | @send side plaintext random output message ratchet' place party' done sends represents carries history =>
    obtain ⟨next, small⟩ := (order.ends side).sends (tracks.ok.party side) (tracks.ends side).represents orderly sends
      represents history
    refine ⟨order.ends_set next, ?_⟩
    intro p mem
    rcases List.mem_cons.mp mem with rfl | old
    · exact small
    · exact order.sent_small p old
  | @receive side s maxPlaintextLength ratchet' place party' mem known carries receives represents passed =>
    obtain ⟨-, chain, -⟩ := tracks.ok.sent place known
    have generated : ∀ pair ∈ place.chain, pair.Generated ops.curve25519 :=
      fun pair mem => (order.ends _).generated pair (chain.subset mem)
    exact ⟨order.ends_set ((order.ends side).receives (tracks.ok.party side) generated (order.sent_small place known)
      receives represents _), order.sent_small⟩

theorem Run.inOrder (free : ops.Free) (ideal : ops.wire.Ideal) (tracks : Tracks ops secret world duo)
    (order : InOrder ops world duo) (run : Run ops (World.Orderly ops) world world') :
    ∃ duo', Tracks ops secret world' duo' ∧ InOrder ops world' duo' := by
  induction run with
  | refl => exact ⟨duo, tracks, order⟩
  | step event _ genuine orderly ih =>
    obtain ⟨duo', tracks', order'⟩ := ih
    obtain ⟨duo'', advances⟩ := step_advances free ideal tracks' event genuine
    exact ⟨duo'', advances.tracks free ideal tracks', advances.inOrder tracks' order' orderly⟩

theorem Reachable.inOrder (free : ops.Free) (ideal : ops.wire.Ideal) {pair : Curve25519KeyPair}
    (generated : pair.Generated ops.curve25519) (reached : Reachable ops (World.Orderly ops) secret pair world) :
    ∃ duo, Tracks ops secret world duo ∧ InOrder ops world duo := by
  obtain ⟨memory, run⟩ := reached
  exact run.inOrder free ideal (start_tracks memory pair) (start_inOrder memory generated)

/-! ### Delivery -/

/-- The chain that an end keeps under the ratchet key of a message is the chain of the message. -/
theorem InOrder.chain_eq (order : InOrder ops world duo) (ok : duo.Ok maxSkippedMessageKeys) (sent : place ∈ duo.sent)
    (theirs : owner place.chain = side.peer) {next : Place Curve25519KeyPair}
    (kept : next ∈ (duo.party side).receiving) (same : ratchetKeyOf next.chain = ratchetKeyOf place.chain) :
    next.chain = place.chain := by
  obtain ⟨started, chain, -⟩ := ok.sent place sent
  rw [theirs] at chain
  obtain ⟨kept_started, kept_chain, kept_owner⟩ := (ok.party side).known next kept
  exact (order.ends side.peer).fresh _ _ ⟨kept_started, ok.theirs kept_chain kept_owner, kept_owner⟩
    ⟨started, chain, theirs⟩ same

theorem InOrder.findChain_eq (order : InOrder ops world duo) (ok : duo.Ok maxSkippedMessageKeys)
    {ratchet : Ratchet Key} (represents : Represents ops secret side ratchet (duo.party side))
    (sent : place ∈ duo.sent) (theirs : owner place.chain = side.peer) {next : Place Curve25519KeyPair}
    (kept : next ∈ (duo.party side).receiving) (same : next.chain = place.chain) :
    ∃ pos, findChain (ratchetKeyOf place.chain) ratchet.receiverChains.toList =
      some (pos, receiverChainOf ops secret next) := by
  have listed : receiverChainOf ops secret next ∈ ratchet.receiverChains.toList := by
    rw [represents.receivers]
    exact List.mem_map_of_mem kept
  rcases found : findChain (ratchetKeyOf place.chain) ratchet.receiverChains.toList with _ | ⟨pos, chain⟩
  · exact absurd (congrArg ratchetKeyOf same) (findChain_eq_none.mp found _ listed)
  · obtain ⟨read, named⟩ := findChain_eq_some found
    rw [represents.receivers, List.getElem?_map] at read
    obtain ⟨next', read', rfl⟩ := Option.map_eq_some_iff.mp read
    have same' := order.chain_eq ok sent theirs (List.mem_of_getElem? read') named
    obtain ⟨index, at_index⟩ := List.mem_iff_getElem?.mp kept
    obtain rfl := eq_of_length (ok.party side).distinct read' at_index (same'.trans same.symm)
    rw [read'] at at_index
    obtain rfl := Option.some.inj at_index
    exact ⟨pos, rfl⟩

/-- A place that was passed over not long ago, and not taken since, is still among the skipped ones. -/
theorem skipped_of_passed (ok : party.Ok maxSkippedMessageKeys side) (passed : place ∈ party.passed)
    (unopened : place ∉ party.opened) (recent : ∀ newer older,
      placeNames party.passed = newer ++ (ratchetKeyOf place.chain, counterOf place) :: older →
        newer.length < maxSkippedMessageKeys) : place ∈ party.skipped := by
  obtain ⟨newer, older, split⟩ := List.append_of_mem passed
  have few : newer.length < maxSkippedMessageKeys := by
    have length : (placeNames newer).length = newer.length := List.length_map _
    rw [← length]
    apply recent
    unfold placeNames
    rw [split, List.map_append, List.map_cons]
  apply ok.remembered.mem
  rw [List.mem_filter, decide_eq_true_eq, split]
  refine ⟨List.mem_take_iff_getElem.mpr ⟨newer.length, ?_, ?_⟩, unopened⟩
  · rw [List.length_append, List.length_cons]
    omega
  · rw [List.getElem_append_right (le_refl _)]
    simp only [Nat.sub_self, List.getElem_cons_zero]

section Deliver

variable (correct : ops.wire.Correct) (tracks : Tracks ops secret world duo) (order : InOrder ops world duo)
  (sent : place ∈ duo.sent) (theirs : owner place.chain = side.peer) {s : SentMessage Msg} (mem : s ∈ world.sent)
  (carries : SentAt ops secret place s.plaintext s.message) {maxPlaintextLength : Nat}
  (room : ∀ length, ((world.endpoint side).ratchet.decryptMaxPlaintextLength ops s.message).2 = some length →
    length ≤ maxPlaintextLength)
include correct tracks order sent theirs carries room

include mem in
theorem known_arrives (unopened : s.message ∉ (world.endpoint side).opened) {chain : ReceiverChain Key}
    (listed : chain ∈ (world.endpoint side).ratchet.receiverChains.toList)
    (same : chain.ratchetKey = ratchetKeyOf place.chain)
    (near : (counterOf place).toNat ≤ chain.chainKey.index.toNat + maxMessageGap)
    (kept : counterOf place < chain.chainKey.index → ∀ newer older, (world.endpoint side).passed =
      newer ++ (ratchetKeyOf place.chain, counterOf place) :: older → newer.length < maxSkippedMessageKeys) :
    ((world.endpoint side).ratchet.decrypt ops s.message maxPlaintextLength).2 ≠ none := by
  have ok := tracks.ok.party side
  have represents := (tracks.ends side).represents
  have small : place.position < 2 ^ 32 := Nat.lt_of_succ_lt (order.sent_small place sent)
  rw [represents.receivers] at listed
  obtain ⟨next, receiving, rfl⟩ := List.mem_map.mp listed
  have chain := order.chain_eq tracks.ok sent theirs receiving same
  obtain ⟨pos, found⟩ := order.findChain_eq tracks.ok represents sent theirs receiving chain
  have next_small := (order.ends side).receiving_small next receiving
  simp only [receiverChainOf, toNat_counterOf small, toNat_counterOf next_small] at near
  rcases Nat.lt_or_ge place.position next.position with behind | ahead
  · have before : counterOf place < (receiverChainOf ops secret next).chainKey.index := by
      rw [UInt32.lt_iff_toNat_lt, receiverChainOf, toNat_counterOf small, toNat_counterOf next_small]
      exact behind
    have not_opened : place ∉ (duo.party side).opened := by
      intro opened
      obtain ⟨s', mem', carries', opened'⟩ := (tracks.ends side).opened_back place opened
      obtain rfl := tracks.unique s mem s' mem' place carries carries'
      exact unopened opened'
    have passed : place ∈ (duo.party side).passed := by
      have accounted := ok.accounted next receiving place.position behind
      rw [chain] at accounted
      exact accounted.resolve_left not_opened
    refine skippedKey_delivered correct represents carries room ?_ found before
    apply skipped_of_passed ok passed not_opened
    rw [← (tracks.ends side).passed]
    exact kept before
  · rw [liveChain_delivered correct carries small room chain found ahead near]
    exact Option.some_ne_none _

theorem unseen_arrives (commutes : Commutes ops.curve25519)
    (unseen : ratchetKeyOf place.chain ∉ (world.endpoint side).seen)
    (near : (counterOf place).toNat ≤ maxMessageGap) :
    ((world.endpoint side).ratchet.decrypt ops s.message maxPlaintextLength).2 = some s.plaintext := by
  have represents := (tracks.ends side).represents
  have small : place.position < 2 ^ 32 := Nat.lt_of_succ_lt (order.sent_small place sent)
  obtain ⟨started, chain, -⟩ := tracks.ok.sent place sent
  rw [theirs] at chain
  have unknown : ¬ place.chain <:+ duo.history side :=
    fun known => unseen ((order.ends side).seen place.chain ⟨started, known, theirs⟩)
  obtain ⟨-, follows, turn⟩ := tracks.ok.unseen chain unknown
  rw [toNat_counterOf small] at near
  refine newChain_delivered correct represents carries small room commutes turn ?_ (tracks.ok.party side).started
    follows ?_ near
  · exact fun pair mem => (order.ends side.peer).generated pair (chain.subset mem)
  · apply findChain_eq_none.mpr
    intro listed mem same
    rw [represents.receivers] at mem
    obtain ⟨next, receiving, rfl⟩ := List.mem_map.mp mem
    have chain := order.chain_eq tracks.ok sent theirs receiving same
    exact unknown (chain ▸ ((tracks.ok.party side).known next receiving).2.1)

end Deliver

section Deliver

variable (ideal : ops.wire.Ideal) (tracks : Tracks ops secret world duo) (order : InOrder ops world duo)
  (sent : place ∈ duo.sent) (theirs : owner place.chain = side.peer) {s : SentMessage Msg} (mem : s ∈ world.sent)
  (carries : SentAt ops secret place s.plaintext s.message) {maxPlaintextLength : Nat}
  (room : ∀ length, ((world.endpoint side).ratchet.decryptMaxPlaintextLength ops s.message).2 = some length →
    length ≤ maxPlaintextLength)
include ideal tracks order sent theirs carries room

include mem in
theorem known_delivered (unopened : s.message ∉ (world.endpoint side).opened) {chain : ReceiverChain Key}
    (listed : chain ∈ (world.endpoint side).ratchet.receiverChains.toList)
    (same : chain.ratchetKey = ratchetKeyOf place.chain)
    (near : (counterOf place).toNat ≤ chain.chainKey.index.toNat + maxMessageGap)
    (kept : counterOf place < chain.chainKey.index → ∀ newer older, (world.endpoint side).passed =
      newer ++ (ratchetKeyOf place.chain, counterOf place) :: older → newer.length < maxSkippedMessageKeys) :
    ((world.endpoint side).ratchet.decrypt ops s.message maxPlaintextLength).2 ≠ none :=
  known_arrives ideal.toCorrect tracks order sent theirs mem carries room unopened listed same near kept

theorem unseen_delivered (commutes : Commutes ops.curve25519)
    (unseen : ratchetKeyOf place.chain ∉ (world.endpoint side).seen)
    (near : (counterOf place).toNat ≤ maxMessageGap) :
    ((world.endpoint side).ratchet.decrypt ops s.message maxPlaintextLength).2 = some s.plaintext :=
  unseen_arrives ideal.toCorrect tracks order sent theirs carries room commutes unseen near

end Deliver

theorem messages_delivered (free : ops.Free) (ideal : ops.wire.Ideal) (commutes : Commutes ops.curve25519)
    {pair : Curve25519KeyPair} (generated : pair.Generated ops.curve25519)
    (reached : Reachable ops (World.Orderly ops) secret pair world) {s : SentMessage Msg} (mem : s ∈ world.sent)
    (maxPlaintextLength : Nat) :
    let receiver := world.endpoint s.sender.peer
    let decrypted := (receiver.ratchet.decrypt ops s.message maxPlaintextLength).2
    (∀ plaintext, decrypted = some plaintext → plaintext = s.plaintext) ∧
      (s.message ∉ receiver.opened →
        (∀ length, (receiver.ratchet.decryptMaxPlaintextLength ops s.message).2 = some length →
          length ≤ maxPlaintextLength) →
        receiver.CanRead (Block.load 32 ((ops.wire.read s.message).ratchetKey.getD []))
          (ops.wire.read s.message).counter.value →
        decrypted = some s.plaintext) := by
  intro receiver decrypted
  obtain ⟨duo, tracks, order⟩ := reached.inOrder free ideal generated
  obtain ⟨place, sent, sender, carries⟩ := tracks.sent s mem
  have theirs : owner place.chain = s.sender.peer.peer := by rw [sender, Side.peer_peer]
  have right (plaintext : Bytes) (done : decrypted = some plaintext) : plaintext = s.plaintext := by
    obtain ⟨whole, common⟩ := tracks.ok.common
    obtain ⟨started, chain, -⟩ := tracks.ok.sent place sent
    have opened : receiver.ratchet.decrypt ops s.message maxPlaintextLength =
        ((receiver.ratchet.decrypt ops s.message maxPlaintextLength).1, some plaintext) := Prod.ext rfl done
    exact (decrypt_receives free ideal (tracks.ends _).represents (tracks.ok.party _) (common _) started
      (chain.trans (common _)) carries opened).1
  refine ⟨right, ?_⟩
  intro unopened room readable
  obtain ⟨ciphertext, read, -⟩ := ideal.reads carries
  rw [read] at readable
  simp only [Option.getD_some, Block.load_val] at readable
  cases readable with
  | known listed same near kept =>
    have succeeds := known_delivered ideal tracks order sent theirs mem carries room unopened listed same near kept
    obtain ⟨plaintext, done⟩ := Option.ne_none_iff_exists'.mp succeeds
    rw [← right plaintext done]
    exact done
  | unseen new near => exact unseen_delivered ideal tracks order sent theirs carries room commutes new near

theorem messages_delivered_symbolic :
    ((symbolicWorld.endpoint .bob).ratchet.decrypt symbolicRatchet symbolicMessage 1).2 = some [104] := by
  have orderly : World.Orderly symbolicRatchet
      (start symbolicRatchet (fun _ => clearedRatchet .zero) [] symbolicPair)
      (.encrypt .alice [104] [] ⟨[0], by decide⟩) := by
    show (0 : UInt32).toNat + 1 < 2 ^ 32
    decide
  have reached : Reachable symbolicRatchet (World.Orderly symbolicRatchet) [] symbolicPair symbolicWorld :=
    ⟨_, .step _ .refl trivial orderly⟩
  have sent : ⟨.alice, symbolicMessage, [104]⟩ ∈ symbolicWorld.sent := List.mem_cons_self
  obtain ⟨-, delivered⟩ := messages_delivered symbolicRatchet_free symbolicWire_ideal xorCurve_commutes
    (generateKey_generated _ _) reached sent 1
  apply delivered
  · exact List.not_mem_nil
  · rintro length same
    obtain rfl : 1 = length := Option.some.inj same
    exact le_refl 1
  · have receivers : (symbolicWorld.endpoint .bob).ratchet.receiverChains.toList =
        [⟨symbolicPair.publicKey, 0, (KeyTerm.algebra.hkdf [] none [0]).2⟩] := rfl
    refine .known (receivers ▸ List.mem_singleton_self _) rfl (by decide) ?_
    intro behind
    exact absurd behind (by decide)

end RubyOlm.World
