import RubyOlm.DoubleRatchet.Delivery

/-!
# Runs without forgeries

Nothing is assumed here of the cipher and the key derivation but that a message opens under the key that
sealed it. As long as no call accepts what was not sent, every run still stands for an exchange: the
ratchet key and the counter of a message tell its place, as far as the receiver keeps the chain or has
never had it.
-/

namespace RubyOlm

namespace Ratchet

variable {Key Msg : Type} {ops : RatchetOps Key Msg}

theorem decrypt_behind {ratchet ratchet' : Ratchet Key} {message : Msg} {maxPlaintextLength : Nat} {plaintext : Bytes}
    {reader : CheckedReader Msg} {pos : Nat} {chain : ReceiverChain Key}
    (done : ratchet.decrypt ops message maxPlaintextLength = (ratchet', some plaintext))
    (checked : checkReader ops message maxPlaintextLength = .ok reader)
    (found : findChain reader.ratchetKey ratchet.receiverChains.toList = some (pos, chain))
    (behind : reader.counter < chain.chainKey.index) :
    ∃ index key, ratchet.skippedMessageKeys.toList[index]? = some key ∧ reader.counter = key.messageKey.index ∧
      key.ratchetKey = reader.ratchetKey ∧ Opens ops key.messageKey.key reader maxPlaintextLength plaintext ∧
      ratchet' = ratchet.removeSkipped ops index := by
  rw [decrypt, checked] at done
  obtain ⟨index, tried, rfl⟩ := decryptChecked_tried ops found behind done
  obtain ⟨key, stored, counter, named, opened⟩ := trySkipped_eq_some ops tried
  exact ⟨index, key, stored, counter, named, opened, rfl⟩

section Represents

open Exchange

theorem Represents.of_lists {secret : Bytes} {side : Side} {ratchet ratchet' : Ratchet Key}
    {party : Party Curve25519KeyPair} (represents : Represents ops secret side ratchet party)
    (root : ratchet'.rootKey = ratchet.rootKey) (sender : ratchet'.senderChain.toList = ratchet.senderChain.toList)
    (receivers : ratchet'.receiverChains.toList = ratchet.receiverChains.toList)
    (skipped : ratchet'.skippedMessageKeys.toList = ratchet.skippedMessageKeys.toList) :
    Represents ops secret side ratchet' party where
  root := root.trans represents.root
  sender := sender.trans represents.sender
  receivers := receivers.trans represents.receivers
  skipped := skipped.trans represents.skipped

end Represents

end Ratchet

namespace World

open Exchange Ratchet

variable {Key Msg : Type} (ops : RatchetOps Key Msg) (secret : Bytes)

/-- A new ratchet key is one that neither end has sent under, and there are fewer than `2 ^ 32` messages on
a chain. What is accepted was sent by the other end, and under a ratchet key whose chain is kept or that
was not seen before. -/
def Unforged (world : World Key Msg) : Event Msg → Prop
  | .encrypt side _ random _ =>
    let endpoint := world.endpoint side
    if endpoint.ratchet.senderChain.empty then
      ∀ other, (generateKey ops.curve25519 (Block.load 32 random)).publicKey ∉ (world.endpoint other).sentUnder
    else endpoint.ratchet.sender.chainKey.index.toNat + 1 < 2 ^ 32
  | .decrypt side message maxPlaintextLength =>
    let endpoint := world.endpoint side
    let ratchetKey := Block.load 32 ((ops.wire.read message).ratchetKey.getD [])
    (endpoint.ratchet.decrypt ops message maxPlaintextLength).2 ≠ none →
      (∃ s ∈ world.sent, s.sender = side.peer ∧ s.message = message) ∧
        (ratchetKey ∈ endpoint.ratchet.receiverKeys ∨ ratchetKey ∉ endpoint.seen)

/-- The ratchet keys of all the chains are different. -/
def Separate (duo : Duo Curve25519KeyPair) : Prop :=
  ∃ whole, (∀ side, duo.history side <:+ whole) ∧ (whole.map Curve25519KeyPair.publicKey).Nodup

structure Sound (world : World Key Msg) (duo : Duo Curve25519KeyPair) : Prop where
  tracks : Tracks ops secret world duo
  order : InOrder ops world duo
  separate : Separate duo
  opened : ∀ side, (duo.party side).opened ⊆ duo.sent

variable {ops secret} {world world' : World Key Msg} {duo duo' : Duo Curve25519KeyPair} {event : Event Msg}
  {side : Side} {place : Place Curve25519KeyPair}

theorem Unforged.orderly (unforged : world.Unforged ops event) : world.Orderly ops event := by
  cases event with
  | encrypt side plaintext random output =>
    simp only [Unforged, Orderly] at unforged ⊢
    split at unforged
    case isTrue none =>
      rw [if_pos none]
      exact unforged side
    case isFalse some =>
      rw [if_neg some]
      exact unforged
  | decrypt side message maxPlaintextLength => trivial

/-! ### Ratchet keys -/

theorem chain_of_ratchetKey {whole chain chain' : List Curve25519KeyPair}
    (nodup : (whole.map Curve25519KeyPair.publicKey).Nodup) (started : chain ≠ []) (started' : chain' ≠ [])
    (suffix : chain <:+ whole) (suffix' : chain' <:+ whole) (same : ratchetKeyOf chain = ratchetKeyOf chain') :
    chain = chain' := by
  have longer {a b : List Curve25519KeyPair} (started : a ≠ []) (within : b <:+ whole) (suffix : a <:+ b)
      (same : ratchetKeyOf a = ratchetKeyOf b) : a = b := by
    obtain ⟨newer, rfl⟩ := suffix
    cases newer with
    | nil => rfl
    | cons newest newer =>
      obtain ⟨pair, before, rfl⟩ := List.exists_cons_of_ne_nil started
      have different := (nodup.sublist (within.sublist.map _))
      rw [List.cons_append, List.map_cons, List.nodup_cons] at different
      refine absurd ?_ different.1
      rw [← show ratchetKeyOf (newest :: newer ++ pair :: before) = newest.publicKey from rfl, ← same]
      exact List.mem_map_of_mem (List.mem_append_right _ List.mem_cons_self)
  cases List.suffix_or_suffix_of_suffix suffix suffix' with
  | inl shorter => exact longer started suffix' shorter same
  | inr shorter => exact (longer started' suffix shorter same.symm).symm

theorem Separate.chain_eq (separate : Separate duo) (ok : duo.Ok maxSkippedMessageKeys) {place place' : Place Curve25519KeyPair}
    (sent : place ∈ duo.sent) (sent' : place' ∈ duo.sent)
    (same : ratchetKeyOf place.chain = ratchetKeyOf place'.chain) : place.chain = place'.chain := by
  obtain ⟨whole, common, nodup⟩ := separate
  obtain ⟨started, chain, -⟩ := ok.sent place sent
  obtain ⟨started', chain', -⟩ := ok.sent place' sent'
  exact chain_of_ratchetKey nodup started started' (chain.trans (common _)) (chain'.trans (common _)) same

theorem read_sentAt (correct : ops.wire.Correct) {plaintext : Bytes} {message : Msg}
    (sent : SentAt ops secret place plaintext message) :
    (ops.wire.read message).ratchetKey = some (ratchetKeyOf place.chain).val ∧
      (ops.wire.read message).counter = ⟨counterOf place, true⟩ := by
  obtain ⟨ciphertext, read, -⟩ := correct.reads sent
  rw [read]
  exact ⟨rfl, rfl⟩

/-- Messages that read alike were sent at one place. -/
theorem place_of_read (correct : ops.wire.Correct) (ok : duo.Ok maxSkippedMessageKeys) (separate : Separate duo)
    (small : ∀ place ∈ duo.sent, place.position + 1 < 2 ^ 32) {place place' : Place Curve25519KeyPair}
    (sent : place ∈ duo.sent) (sent' : place' ∈ duo.sent) {plaintext plaintext' : Bytes} {message message' : Msg}
    (carries : SentAt ops secret place plaintext message) (carries' : SentAt ops secret place' plaintext' message')
    (same : ops.wire.read message = ops.wire.read message' ∨ ∃ p text text',
      SentAt ops secret p text message ∧ SentAt ops secret p text' message') : place = place' := by
  obtain ⟨key, counter⟩ := read_sentAt correct carries
  obtain ⟨key', counter'⟩ := read_sentAt correct carries'
  have keys : (ops.wire.read message).ratchetKey = (ops.wire.read message').ratchetKey ∧
      (ops.wire.read message).counter = (ops.wire.read message').counter := by
    cases same with
    | inl same => exact ⟨congrArg Reading.ratchetKey same, congrArg Reading.counter same⟩
    | inr shared =>
      obtain ⟨p, text, text', here, there⟩ := shared
      obtain ⟨key_here, counter_here⟩ := read_sentAt correct here
      obtain ⟨key_there, counter_there⟩ := read_sentAt correct there
      exact ⟨key_here.trans key_there.symm, counter_here.trans counter_there.symm⟩
  rw [key, key', counter, counter'] at keys
  obtain ⟨keys, counters⟩ := keys
  have chains := separate.chain_eq ok sent sent' (Subtype.ext (Option.some.inj keys))
  have positions := congrArg UInt32.toNat (IntField.mk.inj counters).1
  rw [toNat_counterOf (Nat.lt_of_succ_lt (small place sent)),
    toNat_counterOf (Nat.lt_of_succ_lt (small place' sent'))] at positions
  obtain ⟨chain, position⟩ := place
  obtain ⟨chain', position'⟩ := place'
  exact congr (congrArg Place.mk chains) positions

theorem told_of_separate (correct : ops.wire.Correct) (ok : duo.Ok maxSkippedMessageKeys) (separate : Separate duo)
    (small : ∀ place ∈ duo.sent, place.position + 1 < 2 ^ 32) : Told ops secret duo :=
  fun _ sent _ sent' p _ _ _ _ carries here there carries' =>
    place_of_read correct ok separate small sent sent' carries carries' (.inr ⟨p, _, _, here, there⟩)

/-! ### What is accepted -/

section Accepted

variable {s : SentMessage Msg} {maxPlaintextLength : Nat} {ratchet' : Ratchet Key} {plaintext : Bytes}

theorem Sound.small (sound : Sound ops secret world duo) (sent : place ∈ duo.sent) : place.position < 2 ^ 32 :=
  Nat.lt_of_succ_lt (sound.order.sent_small place sent)

/-- A key that is in the list for a message is the one of its place. -/
theorem Sound.skipped_eq (sound : Sound ops secret world duo) (sent : place ∈ duo.sent)
    (theirs : owner place.chain = side.peer) {pos index : Nat} {chain : ReceiverChain Key} {key : SkippedMessageKey Key}
    (found : findChain (ratchetKeyOf place.chain) (world.endpoint side).ratchet.receiverChains.toList = some (pos, chain))
    (stored : (world.endpoint side).ratchet.skippedMessageKeys.toList[index]? = some key)
    (counter : counterOf place = key.messageKey.index) (named : key.ratchetKey = ratchetKeyOf place.chain) :
    (duo.party side).skipped[index]? = some place ∧ key.messageKey.key = placeKey ops secret place := by
  have represents := (sound.tracks.ends side).represents
  have ok := sound.tracks.ok.party side
  rw [represents.skipped, List.getElem?_map, Option.map_eq_some_iff] at stored
  obtain ⟨kept, read, rfl⟩ := stored
  obtain ⟨started, suffix, owned, behind⟩ := ok.skipped_behind kept (List.mem_of_getElem? read)
  -- the chain is kept, so its next place is past both
  obtain ⟨listed, same⟩ := findChain_eq_some found
  rw [represents.receivers, List.getElem?_map, Option.map_eq_some_iff] at listed
  obtain ⟨next, receiving, rfl⟩ := listed
  have next_chain := sound.order.chain_eq sound.tracks.ok sent theirs (List.mem_of_getElem? receiving) same
  obtain ⟨place_started, place_chain, -⟩ := sound.tracks.ok.sent place sent
  rw [theirs] at place_chain
  have chains : kept.chain = place.chain :=
    (sound.order.ends side.peer).fresh _ _ ⟨started, sound.tracks.ok.theirs suffix owned, owned⟩
      ⟨place_started, place_chain, theirs⟩ named
  have before := behind next (List.mem_of_getElem? receiving) (next_chain.trans chains.symm)
  have next_small := (sound.order.ends side).receiving_small next (List.mem_of_getElem? receiving)
  have positions := congrArg UInt32.toNat counter
  rw [toNat_counterOf (sound.small sent), skippedKeyOf, toNat_counterOf (Nat.lt_trans before next_small)] at positions
  obtain rfl : kept = place := by
    obtain ⟨chain, position⟩ := kept
    obtain ⟨chain', position'⟩ := place
    exact congr (congrArg Place.mk chains) positions.symm
  exact ⟨read, rfl⟩

theorem Sound.decrypt_takes (correct : ops.wire.Correct) (commutes : Commutes ops.curve25519)
    (sound : Sound ops secret world duo) (sent : place ∈ duo.sent) (theirs : owner place.chain = side.peer)
    (carries : SentAt ops secret place s.plaintext s.message)
    (within : ratchetKeyOf place.chain ∈ (world.endpoint side).ratchet.receiverKeys ∨
      ratchetKeyOf place.chain ∉ (world.endpoint side).seen)
    (done : (world.endpoint side).ratchet.decrypt ops s.message maxPlaintextLength = (ratchet', some plaintext)) :
    plaintext = s.plaintext ∧ Takes ops secret side (world.endpoint side).ratchet (duo.party side) place ratchet' := by
  have represents := (sound.tracks.ends side).represents
  have ok := sound.tracks.ok.party side
  have small := sound.small sent
  obtain ⟨started, suffix, -⟩ := sound.tracks.ok.sent place sent
  rw [theirs] at suffix
  have whole := done
  obtain ⟨⟨input, _, _, ciphertext⟩, checked, decrypted⟩ := decrypt_eq_some ops done
  obtain ⟨rfl, rfl, rfl, opens⟩ := checkReader_sentAt correct carries checked
  have same_plaintext {key : Key} (same : key = placeKey ops secret place)
      (opened : ops.wire.decrypt key s.message ciphertext maxPlaintextLength = some plaintext) :
      plaintext = s.plaintext := by
    rw [same, opens] at opened
    exact (Option.some.inj opened).symm
  cases decrypted with
  | newChain rootKey chainKey unknown created turn opened root sender receivers skipped =>
    have unseen : ratchetKeyOf place.chain ∉ (world.endpoint side).seen := by
      refine within.resolve_left ?_
      intro listed
      obtain ⟨chain, mem, same⟩ := List.mem_map.mp listed
      exact findChain_eq_none.mp unknown chain mem same
    have new : ¬place.chain <:+ duo.history side :=
      fun known => unseen ((sound.order.ends side).seen place.chain ⟨started, known, theirs⟩)
    obtain ⟨-, follows, mine⟩ := sound.tracks.ok.unseen suffix new
    obtain ⟨ours, before, history⟩ := List.exists_cons_of_ne_nil ok.started
    obtain ⟨pair, rest, chain⟩ := List.exists_cons_of_ne_nil started
    have generated : pair.Generated ops.curve25519 :=
      (sound.order.ends side.peer).generated pair (suffix.subset (chain ▸ List.mem_cons_self))
    have ours_generated : ours.Generated ops.curve25519 :=
      (sound.order.ends side).generated ours (history ▸ List.mem_cons_self)
    have derivation := createChainKey_of_represents commutes represents mine history ours_generated generated
    have chain_eq : place.chain = pair :: (duo.party side).history := by
      rw [chain, List.tail_cons] at follows
      rw [chain, follows]
      rfl
    have key : ratchetKeyOf place.chain = pair.publicKey := by rw [chain, ratchetKeyOf]
    rw [key, derivation, ← chain_eq] at created
    obtain ⟨rfl, rfl⟩ := Prod.mk.inj created
    have position := toNat_counterOf small
    refine ⟨same_plaintext ?_ opened, newChain_takes represents started follows mine position unknown root sender
      receivers skipped⟩
    rw [position]
    rfl
  | liveChain pos chain count found ahead opened root sender receivers skipped =>
    obtain ⟨listed, same⟩ := findChain_eq_some found
    rw [represents.receivers, List.getElem?_map, Option.map_eq_some_iff] at listed
    obtain ⟨next, receiving, rfl⟩ := listed
    have chains := sound.order.chain_eq sound.tracks.ok sent theirs (List.mem_of_getElem? receiving) same
    have next_small := (sound.order.ends side).receiving_small next (List.mem_of_getElem? receiving)
    have positions : place.position = next.position + count := by
      have counters := ahead
      rw [toNat_counterOf small, receiverChainOf, toNat_counterOf next_small] at counters
      exact counters
    have there : place = ⟨next.chain, next.position + count⟩ := by
      rw [chains, ← positions]
    refine ⟨same_plaintext ?_ opened, liveChain_takes represents receiving there found ahead root sender receivers
      skipped⟩
    rw [there]
    exact messageKeyAt_chainKeyAt ops secret next count
  | skippedKey pos key behind stored opened root sender receivers skipped =>
    obtain ⟨⟨pos', chain⟩, found, before⟩ := behind
    obtain ⟨index, key', stored', counter, named, opened', removed⟩ := decrypt_behind whole checked found before
    obtain ⟨read, key_eq⟩ := sound.skipped_eq sent theirs found stored' counter named
    have live := (List.getElem?_eq_some_iff.mp stored').1
    refine ⟨same_plaintext key_eq opened', skippedKey_takes represents read ⟨_, found, before⟩ ?_ ?_ ?_ ?_⟩
    · rw [removed]
      rfl
    · rw [removed]
      rfl
    · rw [removed]
      rfl
    · rw [removed, toList_removeSkipped ops live]

end Accepted

/-! ### Every step -/

theorem start_separate (pair : Curve25519KeyPair) : Separate (Duo.start pair) :=
  ⟨[pair], fun side => by cases side <;> exact List.suffix_rfl, List.nodup_singleton _⟩

/-- A ratchet key that neither end has sent under is not in the history of either. -/
theorem InOrder.unused (order : InOrder ops world duo) (ok : duo.Ok maxSkippedMessageKeys) {key : PublicKey}
    (new : ∀ other, key ∉ (world.endpoint other).sentUnder) (side : Side) :
    key ∉ (duo.history side).map Curve25519KeyPair.publicKey := by
  intro mem
  obtain ⟨pair, used, rfl⟩ := List.mem_map.mp mem
  obtain ⟨newer, older, split⟩ := List.append_of_mem used
  have suffix : pair :: older <:+ duo.history side := ⟨newer, split.symm⟩
  by_cases own : owner (pair :: older) = side
  · exact new side ((order.ends side).sent_under _ ⟨List.cons_ne_nil _ _, suffix, own⟩)
  · have theirs := Side.eq_peer_of_ne own
    have known := ok.theirs suffix theirs
    exact new side.peer ((order.ends side.peer).sent_under _ ⟨List.cons_ne_nil _ _, known, theirs⟩)

theorem Advances.separate (sound : Sound ops secret world duo) (unforged : world.Unforged ops event)
    (advances : Advances ops secret world duo event world' duo') : Separate duo' := by
  obtain ⟨whole, common, nodup⟩ := sound.separate
  have within {side : Side} {party' : Party Curve25519KeyPair} (history : party'.history <:+ whole) (other : Side) :
      (duo.set side party').history other <:+ whole := by
    by_cases same : other = side
    · subst same
      rw [Duo.history, Duo.set_party_self]
      exact history
    · rw [Duo.history, Duo.set_party_of_ne _ same]
      exact common other
  cases advances with
  | idle side ratchet' same => exact ⟨whole, common, nodup⟩
  | @send side plaintext random output message ratchet' place party' done sends represents carries history =>
    cases history with
    | inl same => exact ⟨whole, within (same ▸ common side), nodup⟩
    | inr started =>
      obtain ⟨turn, newest⟩ := started
      have none : (world.endpoint side).ratchet.senderChain.empty = true := by
        rw [OlmList.empty_iff, (sound.tracks.ends side).represents.no_sender turn]
      simp only [Unforged, none, if_true] at unforged
      have level := sound.tracks.ok.level_of_turn turn
      refine ⟨party'.history, ?_, ?_⟩
      · intro other
        by_cases same : other = side
        · subst same
          rw [Duo.history, show (Duo.party _ other) = party' from Duo.set_party_self other party']
        · obtain rfl := Side.eq_peer_of_ne same
          rw [Duo.history, show (Duo.party _ side.peer) = duo.party side.peer from Duo.set_party_peer side party',
            ← Duo.history, ← level side, newest]
          exact List.suffix_cons _ _
      · rw [newest, List.map_cons, List.nodup_cons]
        exact ⟨sound.order.unused sound.tracks.ok unforged side, nodup.sublist ((common side).sublist.map _)⟩
  | @receive side s maxPlaintextLength ratchet' place party' mem known carries receives represents passed =>
    refine ⟨whole, within ?_, nodup⟩
    cases receives.history with
    | inl same => exact same ▸ common side
    | inr started =>
      obtain ⟨-, -, received⟩ := started
      obtain ⟨-, chain, -⟩ := sound.tracks.ok.sent place known
      rw [received]
      exact chain.trans (common _)

theorem Advances.opened (opened : ∀ side, (duo.party side).opened ⊆ duo.sent)
    (advances : Advances ops secret world duo event world' duo') (side : Side) :
    (duo'.party side).opened ⊆ duo'.sent := by
  have within {other : Side} {party' : Party Curve25519KeyPair} {sent : List (Place Curve25519KeyPair)}
      (more : duo.sent ⊆ sent) (there : party'.opened ⊆ sent) : ((duo.set other party').party side).opened ⊆ sent := by
    by_cases same : side = other
    · subst same
      rw [Duo.set_party_self]
      exact there
    · rw [Duo.set_party_of_ne _ same]
      exact List.Subset.trans (opened side) more
  cases advances with
  | idle other ratchet' same => exact opened side
  | @send other plaintext random output message ratchet' place party' done sends represents carries history =>
    obtain ⟨-, -, -, same, -⟩ := sends.frame
    have more : duo.sent ⊆ place :: duo.sent := List.subset_cons_self _ _
    exact within more (same ▸ List.Subset.trans (opened other) more)
  | @receive other s maxPlaintextLength ratchet' place party' mem known carries receives represents passed =>
    have taken : party'.opened = place :: (duo.party other).opened := by cases receives <;> rfl
    exact within (List.Subset.refl _) (taken ▸ List.cons_subset.mpr ⟨known, opened other⟩)

theorem Sound.advances (correct : ops.wire.Correct) (sound : Sound ops secret world duo)
    (unforged : world.Unforged ops event) (advances : Advances ops secret world duo event world' duo') :
    Sound ops secret world' duo' := by
  have order := advances.inOrder sound.tracks sound.order unforged.orderly
  have separate := advances.separate sound unforged
  have told : Told ops secret duo' :=
    told_of_separate correct (advances.ok sound.tracks.ok) separate order.sent_small
  exact ⟨advances.tracks_of_told sound.tracks told, order, separate, advances.opened sound.opened⟩

theorem Sound.step (correct : ops.wire.Correct) (commutes : Commutes ops.curve25519) (sound : Sound ops secret world duo)
    (unforged : world.Unforged ops event) :
    ∃ duo', Advances ops secret world duo event (world.step ops event) duo' := by
  cases event with
  | encrypt side plaintext random output => exact encrypt_advances sound.tracks side plaintext random output
  | decrypt side message maxPlaintextLength =>
    simp only [World.step, World.decrypt]
    rcases done : (world.endpoint side).ratchet.decrypt ops message maxPlaintextLength with ⟨ratchet', _ | plaintext⟩
    · exact ⟨duo, .idle side ratchet' (decrypt_eq_none ops done)⟩
    · have accepted : ((world.endpoint side).ratchet.decrypt ops message maxPlaintextLength).2 ≠ none := by
        rw [done]
        exact Option.some_ne_none _
      obtain ⟨⟨s, mem, sender, rfl⟩, within⟩ := unforged accepted
      obtain ⟨place, sent, owned, carries⟩ := sound.tracks.sent s mem
      obtain ⟨key, counter⟩ := read_sentAt correct carries
      simp only [key, Option.getD_some, Block.load_val] at within
      obtain ⟨-, party', receives, represents, passed⟩ :=
        sound.decrypt_takes correct commutes sent (owned.trans sender) carries within done
      refine ⟨duo.set side party', ?_⟩
      simp only [key, counter, Option.getD_some, Block.load_val]
      exact .receive mem sent carries receives represents passed

theorem Run.sound (correct : ops.wire.Correct) (commutes : Commutes ops.curve25519)
    (run : Run ops (Unforged ops) world world') (sound : Sound ops secret world duo) :
    ∃ duo', Sound ops secret world' duo' := by
  induction run with
  | refl => exact ⟨duo, sound⟩
  | step event _ _ unforged ih =>
    obtain ⟨duo', sound'⟩ := ih
    obtain ⟨duo'', advances⟩ := sound'.step correct commutes unforged
    exact ⟨duo'', sound'.advances correct unforged advances⟩

/-- A ratchet may be replaced by another that stands for the same party. -/
theorem Sound.set_ratchet (sound : Sound ops secret world duo) {ratchet' : Ratchet Key}
    (represents : Represents ops secret side ratchet' (duo.party side)) :
    Sound ops secret (world.set side { world.endpoint side with ratchet := ratchet' }) duo := by
  refine ⟨⟨sound.tracks.ok, ?ends, sound.tracks.sent, sound.tracks.unique⟩, ⟨?order, sound.order.sent_small⟩,
    sound.separate, sound.opened⟩
  case ends =>
    intro other
    have before := sound.tracks.ends other
    by_cases same : other = side
    · subst same
      rw [set_endpoint_self]
      exact { before with represents }
    · rw [set_endpoint_of_ne _ same]
      exact before
  case order =>
    intro other
    by_cases same : other = side
    · subst same
      rw [set_endpoint_self]
      exact (sound.order.ends other).of_ratchet ratchet'
    · rw [set_endpoint_of_ne _ same]
      exact sound.order.ends other

theorem start_sound (memory : Side → Ratchet Key) {pair : Curve25519KeyPair} (generated : pair.Generated ops.curve25519) :
    Sound ops secret (start ops memory secret pair) (Duo.start pair) :=
  ⟨start_tracks memory pair, start_inOrder memory generated, start_separate pair, fun side => by
    cases side <;> exact List.nil_subset _⟩

/-! ### Delivery -/

section Delivered

variable {s : SentMessage Msg} {maxPlaintextLength : Nat} {plaintext : Bytes}

/-- A message that was opened before was opened at its place. -/
theorem Sound.opened_place (correct : ops.wire.Correct) (sound : Sound ops secret world duo) (sent : place ∈ duo.sent)
    (carries : SentAt ops secret place s.plaintext s.message) (opened : s.message ∈ (world.endpoint side).opened) :
    place ∈ (duo.party side).opened := by
  obtain ⟨s', -, same, place', taken, carries'⟩ := (sound.tracks.ends side).opened s.message opened
  have sent' := sound.opened side taken
  have read : ops.wire.read s.message = ops.wire.read s'.message := by rw [same]
  rw [place_of_read correct sound.tracks.ok sound.separate sound.order.sent_small sent sent' carries carries' (.inl read)]
  exact taken

/-- What is accepted is new and gives its plaintext. -/
theorem Sound.accepted (correct : ops.wire.Correct) (commutes : Commutes ops.curve25519)
    (sound : Sound ops secret world duo) (mem : s ∈ world.sent) (sender : s.sender = side.peer)
    (within : Block.load 32 ((ops.wire.read s.message).ratchetKey.getD []) ∈
        (world.endpoint side).ratchet.receiverKeys ∨
      Block.load 32 ((ops.wire.read s.message).ratchetKey.getD []) ∉ (world.endpoint side).seen)
    (done : ((world.endpoint side).ratchet.decrypt ops s.message maxPlaintextLength).2 = some plaintext) :
    plaintext = s.plaintext ∧ s.message ∉ (world.endpoint side).opened := by
  obtain ⟨place, sent, owned, carries⟩ := sound.tracks.sent s mem
  obtain ⟨key, -⟩ := read_sentAt correct carries
  rw [key, Option.getD_some, Block.load_val] at within
  have whole : (world.endpoint side).ratchet.decrypt ops s.message maxPlaintextLength =
      (((world.endpoint side).ratchet.decrypt ops s.message maxPlaintextLength).1, some plaintext) := Prod.ext rfl done
  obtain ⟨right, party', receives, -⟩ :=
    sound.decrypt_takes correct commutes sent (owned.trans sender) carries within whole
  refine ⟨right, ?_⟩
  intro opened
  exact receives.unopened (sound.tracks.ok.party side) (sound.opened_place correct sent carries opened)

/-- What an end can read and has not opened is delivered. -/
theorem Sound.delivered (correct : ops.wire.Correct) (commutes : Commutes ops.curve25519)
    (sound : Sound ops secret world duo) (mem : s ∈ world.sent) (sender : s.sender = side.peer)
    (unopened : s.message ∉ (world.endpoint side).opened)
    (room : ∀ length, ((world.endpoint side).ratchet.decryptMaxPlaintextLength ops s.message).2 = some length →
      length ≤ maxPlaintextLength)
    (readable : (world.endpoint side).CanRead (Block.load 32 ((ops.wire.read s.message).ratchetKey.getD []))
      (ops.wire.read s.message).counter.value) :
    ((world.endpoint side).ratchet.decrypt ops s.message maxPlaintextLength).2 = some s.plaintext := by
  obtain ⟨place, sent, owned, carries⟩ := sound.tracks.sent s mem
  have theirs := owned.trans sender
  obtain ⟨key, counter⟩ := read_sentAt correct carries
  have named : Block.load 32 ((ops.wire.read s.message).ratchetKey.getD []) = ratchetKeyOf place.chain := by
    rw [key, Option.getD_some, Block.load_val]
  rw [named, counter] at readable
  cases readable with
  | known listed same near kept =>
    have succeeds := known_arrives correct sound.tracks sound.order sent theirs mem carries room unopened listed same
      near kept
    obtain ⟨plaintext, done⟩ := Option.ne_none_iff_exists'.mp succeeds
    have within := List.mem_map_of_mem (f := ReceiverChain.ratchetKey) listed
    rw [same, ← named] at within
    rw [done, (sound.accepted correct commutes mem sender (.inl within) done).1]
  | unseen new near => exact unseen_arrives correct sound.tracks sound.order sent theirs carries room commutes new near

end Delivered

end World

end RubyOlm
