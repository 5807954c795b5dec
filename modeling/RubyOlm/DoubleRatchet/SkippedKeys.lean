import RubyOlm.DoubleRatchet.Unforged

/-!
# The skipped keys that can be used

A `decrypt` looks for the chain of a message before it looks through the skipped keys. The key of a skipped
message is therefore of use for as long as its chain is kept, and no longer: the newest `maxReceiverChains` are.
-/

namespace RubyOlm

namespace Ratchet

open Exchange

variable {Key Msg : Type} {ops : RatchetOps Key Msg} {secret : Bytes} {side : Side} {ratchet ratchet' : Ratchet Key}
  {party : Party Curve25519KeyPair} {place : Place Curve25519KeyPair} {plaintext plaintext' : Bytes} {message : Msg}
  {maxPlaintextLength : Nat}

/-- A message that the party has skipped is decrypted with the stored key or not at all. -/
theorem Represents.fetched (free : ops.Free) (ideal : ops.wire.Ideal)
    (represents : Represents ops secret side ratchet party) (ok : party.Ok maxSkippedMessageKeys side)
    (kept : place ∈ party.skipped) (sent : SentAt ops secret place plaintext message)
    (done : ratchet.decrypt ops message maxPlaintextLength = (ratchet', some plaintext')) :
    ∃ found, findChain (ratchetKeyOf place.chain) ratchet.receiverChains.toList = some found ∧
      counterOf place < found.2.chainKey.index := by
  have behind := ok.skipped_behind place kept
  obtain ⟨⟨input, _, _, ciphertext⟩, checked, decrypted⟩ := decrypt_eq_some ops done
  obtain ⟨rfl, rfl, rfl, -⟩ := checkReader_sentAt ideal.toCorrect sent checked
  cases decrypted with
  | newChain rootKey chainKey unknown created turn opened root sender receivers skipped =>
    obtain ⟨-, follows, -⟩ := newChain_place free represents ok List.suffix_rfl behind.started behind.chain created
      (ideal.only sent opened)
    -- a new chain would be longer than the history
    have short := behind.chain.length_le
    have started := List.length_pos_iff.mpr behind.started
    rw [← follows, List.length_tail] at short
    omega
  | liveChain pos chain count found ahead opened root sender receivers skipped =>
    obtain ⟨next, read, -, same⟩ := liveChain_place free represents ok List.suffix_rfl behind.started behind.chain found
      (ideal.only sent opened)
    have position := behind.position next (List.mem_of_getElem? read) (congrArg Place.chain same).symm
    rw [same] at position
    exact absurd position (Nat.not_lt.mpr (Nat.le_add_right _ _))
  | skippedKey pos key behind stored opened root sender receivers skipped => exact behind

end Ratchet

namespace World

open Exchange Ratchet

variable {Key Msg : Type} {ops : RatchetOps Key Msg} {secret : Bytes} {world world' : World Key Msg}
  {duo : Duo Curve25519KeyPair} {side : Side} {place : Place Curve25519KeyPair} {maxPlaintextLength : Nat}

/-- The ratchet key and the counter that a message shows. -/
def header (ops : RatchetOps Key Msg) (message : Msg) : PublicKey × UInt32 :=
  (Block.load 32 ((ops.wire.read message).ratchetKey.getD []), (ops.wire.read message).counter.value)

theorem header_of_writes (correct : ops.wire.Correct) {key : Key} {counter : UInt32} {ratchetKey : PublicKey}
    {plaintext : Bytes} {message : Msg} (writes : ops.wire.Writes key counter ratchetKey plaintext message) :
    header ops message = (ratchetKey, counter) := by
  obtain ⟨ciphertext, read, -⟩ := correct.reads writes
  simp only [header, read, Option.getD_some, Block.load_val]

theorem header_of_sentAt (correct : ops.wire.Correct) {plaintext : Bytes} {message : Msg}
    (sent : SentAt ops secret place plaintext message) :
    header ops message = (ratchetKeyOf place.chain, counterOf place) := header_of_writes correct sent

section Skipped

variable {s : SentMessage Msg}
  (room : ∀ length, ((world.endpoint side).ratchet.decryptMaxPlaintextLength ops s.message).2 = some length →
    length ≤ maxPlaintextLength)

/-- While the chain of a stored key is kept, the header tells its message, and the chain is past it. -/
theorem skipped_found (correct : ops.wire.Correct) (tracks : Tracks ops secret world duo) (order : InOrder ops world duo)
    (kept : place ∈ (duo.party side).skipped) (mem : s ∈ world.sent) (theirs : s.sender = side.peer)
    (same : header ops s.message = (ratchetKeyOf place.chain, counterOf place))
    (listed : ratchetKeyOf place.chain ∈ (world.endpoint side).ratchet.receiverKeys) :
    place ∈ duo.sent ∧ SentAt ops secret place s.plaintext s.message ∧
      ∃ pos chain, findChain (ratchetKeyOf place.chain) (world.endpoint side).ratchet.receiverChains.toList =
        some (pos, chain) ∧ counterOf place < chain.chainKey.index := by
  have represents := (tracks.ends side).represents
  have ok := tracks.ok.party side
  have behind := ok.skipped_behind place kept
  obtain ⟨place', sent, sender, carries⟩ := tracks.sent s mem
  obtain ⟨started, known, -⟩ := tracks.ok.sent place' sent
  rw [header_of_sentAt correct carries] at same
  obtain ⟨named, counted⟩ := Prod.mk.inj same
  have owned : owner place'.chain = side.peer := sender.trans theirs
  rw [owned] at known
  have chain : place'.chain = place.chain :=
    (order.ends side.peer).fresh _ _ ⟨started, known, owned⟩
      ⟨behind.started, tracks.ok.theirs behind.chain behind.owner, behind.owner⟩ named
  obtain ⟨kept_chain, live, key⟩ := List.mem_map.mp listed
  rw [represents.receivers] at live
  obtain ⟨next, receiving, rfl⟩ := List.mem_map.mp live
  have next_chain := order.chain_eq tracks.ok sent owned receiving (key.trans named.symm)
  have position := behind.position next receiving (next_chain.trans chain)
  have next_small := (order.ends side).receiving_small next receiving
  have small' := Nat.lt_of_succ_lt (order.sent_small place' sent)
  have small : place.position < 2 ^ 32 := Nat.lt_trans position next_small
  have place_same : place' = place := by
    have positions := congrArg UInt32.toNat counted
    rw [toNat_counterOf small', toNat_counterOf small] at positions
    obtain ⟨_, _⟩ := place
    obtain ⟨_, _⟩ := place'
    exact congrArg₂ Place.mk chain positions
  subst place_same
  obtain ⟨pos, found⟩ := order.findChain_eq tracks.ok represents sent owned receiving next_chain
  refine ⟨sent, carries, pos, _, found, ?_⟩
  rw [UInt32.lt_iff_toNat_lt, receiverChainOf, toNat_counterOf small, toNat_counterOf next_small]
  exact position

include room

/-- With free keys and an ideal cipher the message of a stored key is decrypted exactly if its chain is found, past
the message. -/
theorem skipped_delivered_iff (free : ops.Free) (ideal : ops.wire.Ideal) (tracks : Tracks ops secret world duo)
    (kept : place ∈ (duo.party side).skipped) (carries : SentAt ops secret place s.plaintext s.message) :
    ((world.endpoint side).ratchet.decrypt ops s.message maxPlaintextLength).2 = some s.plaintext ↔
      ∃ found, findChain (ratchetKeyOf place.chain) (world.endpoint side).ratchet.receiverChains.toList = some found ∧
        counterOf place < found.2.chainKey.index := by
  have represents := (tracks.ends side).represents
  have ok := tracks.ok.party side
  have behind := ok.skipped_behind place kept
  constructor
  · intro done
    exact represents.fetched free ideal ok kept carries (Prod.ext rfl done)
  · rintro ⟨⟨pos, chain⟩, found, past⟩
    have succeeds := skippedKey_delivered ideal.toCorrect represents carries room kept found past
    obtain ⟨plaintext, done⟩ := Option.ne_none_iff_exists'.mp succeeds
    have right := (decrypt_receives free ideal represents ok List.suffix_rfl behind.started behind.chain carries
      (Prod.ext rfl done)).1
    rw [done, right]

/-- In a run that is in order the header tells the message of a stored key, and its chain is past it. -/
theorem skipped_delivered_inOrder (free : ops.Free) (ideal : ops.wire.Ideal) (tracks : Tracks ops secret world duo)
    (order : InOrder ops world duo) (kept : place ∈ (duo.party side).skipped) (mem : s ∈ world.sent)
    (theirs : s.sender = side.peer) (same : header ops s.message = (ratchetKeyOf place.chain, counterOf place)) :
    ((world.endpoint side).ratchet.decrypt ops s.message maxPlaintextLength).2 = some s.plaintext ↔
      ratchetKeyOf place.chain ∈ (world.endpoint side).ratchet.receiverKeys := by
  have represents := (tracks.ends side).represents
  have ok := tracks.ok.party side
  have behind := ok.skipped_behind place kept
  constructor
  · intro done
    obtain ⟨place', sent, sender, carries⟩ := tracks.sent s mem
    obtain ⟨started, known, -⟩ := tracks.ok.sent place' sent
    rw [header_of_sentAt ideal.toCorrect carries] at same
    obtain ⟨named, counted⟩ := Prod.mk.inj same
    have owned : owner place'.chain = side.peer := sender.trans theirs
    rw [owned] at known
    have chain : place'.chain = place.chain :=
      (order.ends side.peer).fresh _ _ ⟨started, known, owned⟩
        ⟨behind.started, tracks.ok.theirs behind.chain behind.owner, behind.owner⟩ named
    by_contra gone
    have unknown : findChain (ratchetKeyOf place'.chain) (world.endpoint side).ratchet.receiverChains.toList = none := by
      refine findChain_eq_none.mpr fun listed mem same => gone ?_
      rw [← named, ← same]
      exact List.mem_map_of_mem mem
    obtain ⟨⟨input, _, _, ciphertext⟩, checked, decrypted⟩ := decrypt_eq_some ops (Prod.ext rfl done)
    obtain ⟨rfl, rfl, rfl, -⟩ := checkReader_sentAt ideal.toCorrect carries checked
    cases decrypted with
    | newChain rootKey chainKey _ created turn opened root sender receivers skipped =>
      have suffix : place'.chain <:+ (duo.party side).history := chain ▸ behind.chain
      obtain ⟨-, follows, -⟩ := newChain_place free represents ok List.suffix_rfl started suffix created
        (ideal.only carries opened)
      have short := suffix.length_le
      have some := List.length_pos_iff.mpr started
      rw [← follows, List.length_tail] at short
      omega
    | liveChain _ _ _ found _ _ _ _ _ _ => cases unknown.symm.trans found
    | skippedKey _ _ behind _ _ _ _ _ _ =>
      obtain ⟨_, found, -⟩ := behind
      cases unknown.symm.trans found
  · intro listed
    obtain ⟨-, carries, pos, chain, found, past⟩ :=
      skipped_found ideal.toCorrect tracks order kept mem theirs same listed
    exact (skipped_delivered_iff room free ideal tracks kept carries).mpr ⟨_, found, past⟩

/-- In a run without forgeries the message of a stored key is decrypted while its chain is kept, and is accepted after
that only by a forgery. -/
theorem skipped_delivered_unforged (correct : ops.wire.Correct) (commutes : Commutes ops.curve25519)
    (sound : Sound ops secret world duo) (kept : place ∈ (duo.party side).skipped) (mem : s ∈ world.sent)
    (theirs : s.sender = side.peer) (same : header ops s.message = (ratchetKeyOf place.chain, counterOf place)) :
    (ratchetKeyOf place.chain ∈ (world.endpoint side).ratchet.receiverKeys →
        ((world.endpoint side).ratchet.decrypt ops s.message maxPlaintextLength).2 = some s.plaintext) ∧
      (((world.endpoint side).ratchet.decrypt ops s.message maxPlaintextLength).2 ≠ none →
        world.Unforged ops (.decrypt side s.message maxPlaintextLength) →
          ratchetKeyOf place.chain ∈ (world.endpoint side).ratchet.receiverKeys) := by
  have represents := (sound.tracks.ends side).represents
  have behind := (sound.tracks.ok.party side).skipped_behind place kept
  constructor
  · intro listed
    obtain ⟨sent, carries, pos, chain, found, past⟩ :=
      skipped_found correct sound.tracks sound.order kept mem theirs same listed
    have succeeds := skippedKey_delivered correct represents carries room kept found past
    obtain ⟨plaintext, done⟩ := Option.ne_none_iff_exists'.mp succeeds
    have right := (sound.decrypt_takes correct commutes sent behind.owner carries (.inl listed) (Prod.ext rfl done)).1
    rw [done, right]
  · intro accepted unforged
    have seen := (sound.order.ends side).seen place.chain ⟨behind.started, behind.chain, behind.owner⟩
    have named : Block.load 32 ((ops.wire.read s.message).ratchetKey.getD []) = ratchetKeyOf place.chain :=
      congrArg Prod.fst same
    obtain ⟨-, listed | new⟩ := unforged accepted
    · exact named ▸ listed
    · exact absurd (named ▸ seen) new

end Skipped

/-! ### Runs by script -/

/-- A move of a script: an empty message with these random bytes for a new chain, or delivery of the message
sent so many messages ago. -/
inductive Move where
  | send (side : Side) (random : UInt8)
  | deliver (side : Side) (ago : Nat)

def Move.event (world : World Key Msg) : Move → Option (Event Msg)
  | .send side random => some (.encrypt side [] (List.replicate 32 random) ⟨[], by decide⟩)
  | .deliver side ago => (world.sent[ago]?).map fun s => .decrypt side s.message 0

instance (world : World Key Msg) (event : Event Msg) : Decidable (World.Orderly ops world event) :=
  match event with
  | .encrypt side _ random _ =>
    inferInstanceAs (Decidable
      (if (world.endpoint side).ratchet.senderChain.empty then
        (generateKey ops.curve25519 (Block.load 32 random)).publicKey ∉ (world.endpoint side).sentUnder
      else (world.endpoint side).ratchet.sender.chainKey.index.toNat + 1 < 2 ^ 32))
  | .decrypt _ _ _ => inferInstanceAs (Decidable True)

variable (ops) in
/-- The world after the moves, if all of them are in order. -/
def play (world : World Key Msg) : (moves : List Move) → Option (World Key Msg)
  | [] => some world
  | move :: moves =>
    match move.event world with
    | none => none
    | some event => if World.Orderly ops world event then play (world.step ops event) moves else none

theorem Move.genuine {move : Move} {event : Event Msg} (made : move.event world = some event) :
    world.Genuine event := by
  cases move with
  | send side random =>
    obtain rfl := Option.some.inj made
    trivial
  | deliver side ago =>
    obtain ⟨s, found, rfl⟩ := Option.map_eq_some_iff.mp made
    exact ⟨s, List.mem_of_getElem? found, rfl⟩

theorem Run.mono {allowed allowed' : World Key Msg → Event Msg → Prop} (run : Run ops allowed world world')
    (weaker : ∀ world event, allowed world event → allowed' world event) : Run ops allowed' world world' := by
  induction run with
  | refl => exact .refl
  | step event _ genuine admitted ih => exact .step event ih genuine (weaker _ event admitted)

theorem run_of_play {moves : List Move} (played : play ops world moves = some world') :
    Run ops (World.Orderly ops) world world' := by
  induction moves generalizing world with
  | nil =>
    obtain rfl := Option.some.inj played
    exact .refl
  | cons move moves ih =>
    unfold play at played
    split at played
    · cases played
    · rename_i event made
      split at played
      · rename_i orderly
        exact (Run.step event .refl (Move.genuine made) orderly).trans (ih played)
      · cases played

/-! ### Skipped keys -/

/-- With free keys and an ideal cipher, in every run the message that was sealed with a stored key is decrypted exactly
if a chain is found for it, past it. With new ratchet keys and no counter overflow that is to say: if the chain is
still kept, and then the header tells the message. Whatever the keys and the cipher are, the last holds in runs
without forgeries. -/
theorem skippedKey_usable {pair : Curve25519KeyPair} (reached : Reachable ops (fun _ _ => True) secret pair world)
    {entry : SkippedMessageKey Key} (stored : entry ∈ (world.endpoint side).ratchet.skippedMessageKeys.toList)
    {s : SentMessage Msg}
    (room : ∀ length, ((world.endpoint side).ratchet.decryptMaxPlaintextLength ops s.message).2 = some length →
      length ≤ maxPlaintextLength) :
    (ops.Free → ops.wire.Ideal →
      (ops.wire.Writes entry.messageKey.key entry.messageKey.index entry.ratchetKey s.plaintext s.message →
        (((world.endpoint side).ratchet.decrypt ops s.message maxPlaintextLength).2 = some s.plaintext ↔
          ∃ found, findChain entry.ratchetKey (world.endpoint side).ratchet.receiverChains.toList = some found ∧
            entry.messageKey.index < found.2.chainKey.index)) ∧
      (pair.Generated ops.curve25519 → Reachable ops (World.Orderly ops) secret pair world → s ∈ world.sent →
        s.sender = side.peer → header ops s.message = (entry.ratchetKey, entry.messageKey.index) →
          (((world.endpoint side).ratchet.decrypt ops s.message maxPlaintextLength).2 = some s.plaintext ↔
            entry.ratchetKey ∈ (world.endpoint side).ratchet.receiverKeys))) ∧
    (ops.wire.Correct → Commutes ops.curve25519 → pair.Generated ops.curve25519 →
      Reachable ops (World.Unforged ops) secret pair world → s ∈ world.sent → s.sender = side.peer →
        header ops s.message = (entry.ratchetKey, entry.messageKey.index) →
          (entry.ratchetKey ∈ (world.endpoint side).ratchet.receiverKeys →
            ((world.endpoint side).ratchet.decrypt ops s.message maxPlaintextLength).2 = some s.plaintext) ∧
          (((world.endpoint side).ratchet.decrypt ops s.message maxPlaintextLength).2 ≠ none →
            world.Unforged ops (.decrypt side s.message maxPlaintextLength) →
              entry.ratchetKey ∈ (world.endpoint side).ratchet.receiverKeys)) := by
  refine ⟨fun free ideal => ⟨?sealed, ?orderly⟩, ?unforged⟩
  case sealed =>
    intro seals
    obtain ⟨duo, tracks⟩ := reached.tracks free ideal
    rw [(tracks.ends side).represents.skipped] at stored
    obtain ⟨place, kept, rfl⟩ := List.mem_map.mp stored
    exact skipped_delivered_iff room free ideal tracks kept seals
  case orderly =>
    intro generated reached mem theirs same
    obtain ⟨duo, tracks, order⟩ := reached.inOrder free ideal generated
    rw [(tracks.ends side).represents.skipped] at stored
    obtain ⟨place, kept, rfl⟩ := List.mem_map.mp stored
    exact skipped_delivered_inOrder room free ideal tracks order kept mem theirs same
  case unforged =>
    intro correct commutes generated reached mem theirs same
    obtain ⟨memory, run⟩ := reached
    obtain ⟨duo, sound⟩ := run.sound correct commutes (start_sound memory generated)
    rw [(sound.tracks.ends side).represents.skipped] at stored
    obtain ⟨place, kept, rfl⟩ := List.mem_map.mp stored
    exact skipped_delivered_unforged room correct commutes sound kept mem theirs same

def emptySend : Event SymbolicMessage := .encrypt .alice [] [] ⟨[], by decide⟩

def startedWorld : World (KeyTerm Bytes Bytes Bytes) SymbolicMessage :=
  start symbolicRatchet (fun _ => clearedRatchet .zero) [] symbolicPair

/-- Alice has sent two messages, and Bob has received neither. -/
def twoSentWorld : World (KeyTerm Bytes Bytes Bytes) SymbolicMessage :=
  (startedWorld.step symbolicRatchet emptySend).step symbolicRatchet emptySend

def twoSentKey : KeyTerm Bytes Bytes Bytes := .extract false [] [0]

def twoSentFirst : SentMessage SymbolicMessage :=
  ⟨.alice, ⟨.hmac twoSentKey [1], 0, symbolicPair.publicKey, []⟩, []⟩

def twoSentSecond : SentMessage SymbolicMessage :=
  ⟨.alice, ⟨.hmac (.hmac twoSentKey [2]) [1], 1, symbolicPair.publicKey, []⟩, []⟩

theorem twoSentWorld_sent : twoSentWorld.sent = [twoSentSecond, twoSentFirst] := rfl

/-- Bob has received the second message. -/
def skippingWorld : World (KeyTerm Bytes Bytes Bytes) SymbolicMessage :=
  twoSentWorld.step symbolicRatchet (.decrypt .bob twoSentSecond.message 0)

theorem skippedKey_usable_symbolic :
    ((skippingWorld.endpoint .bob).ratchet.decrypt symbolicRatchet twoSentFirst.message 0).2 = some [] ∧
      symbolicPair.publicKey ∈ (skippingWorld.endpoint .bob).ratchet.receiverKeys ∧
      ∃ found, findChain symbolicPair.publicKey (skippingWorld.endpoint .bob).ratchet.receiverChains.toList =
        some found ∧ 0 < found.2.chainKey.index := by
  have sends (world : World (KeyTerm Bytes Bytes Bytes) SymbolicMessage)
      (live : (world.endpoint .alice).ratchet.senderChain.empty = false)
      (short : (world.endpoint .alice).ratchet.sender.chainKey.index.toNat + 1 < 2 ^ 32) :
      World.Unforged symbolicRatchet world emptySend := by
    simp only [World.Unforged, emptySend, live, Bool.false_eq_true, if_false]
    exact short
  have sent_second : twoSentSecond ∈ twoSentWorld.sent := by
    rw [twoSentWorld_sent]
    exact List.mem_cons_self
  have received : World.Unforged symbolicRatchet twoSentWorld (.decrypt .bob twoSentSecond.message 0) := by
    intro _
    exact ⟨⟨twoSentSecond, sent_second, rfl, rfl⟩, .inl (by decide +kernel)⟩
  have run : Run symbolicRatchet (World.Unforged symbolicRatchet) startedWorld skippingWorld :=
    .step _ (.step emptySend (.step emptySend .refl trivial (sends _ (by decide) (by decide))) trivial
      (sends _ (by decide) (by decide))) ⟨twoSentSecond, sent_second, rfl⟩ received
  have stored : (skippingWorld.endpoint .bob).ratchet.skippedMessageKeys.toList =
      [⟨symbolicPair.publicKey, 0, .hmac twoSentKey [1]⟩] := by
    decide +kernel
  have sent : twoSentFirst ∈ skippingWorld.sent := by
    have same : skippingWorld.sent = [twoSentSecond, twoSentFirst] := rfl
    rw [same]
    exact List.mem_cons_of_mem _ List.mem_cons_self
  have room (length : Nat) (same : some 0 = some length) : length ≤ 0 := Nat.le_of_eq (Option.some.inj same).symm
  have generated : symbolicPair.Generated symbolicRatchet.curve25519 := generateKey_generated _ _
  obtain ⟨symbolic, unforged⟩ := skippedKey_usable ⟨_, run.mono fun _ _ _ => trivial⟩ (stored ▸ List.mem_singleton_self _)
    (s := twoSentFirst) room
  obtain ⟨sealed, orderly⟩ := symbolic symbolicRatchet_free symbolicWire_ideal
  have opened := (unforged symbolicWire_ideal.toCorrect xorCurve_commutes generated ⟨_, run⟩ sent rfl rfl).1
    (by decide +kernel)
  exact ⟨opened, (orderly generated ⟨_, run.mono fun _ _ => Unforged.orderly⟩ sent rfl rfl).mp opened,
    (sealed ⟨⟨[], by decide⟩, rfl, rfl⟩).mp opened⟩

/-! ### A key that is stored in vain -/

/-- Bob skips alice's first message, and then five newer chains reach him. -/
def skippedMoves : List Move :=
  [.send .alice 0, .send .alice 0, .deliver .bob 0] ++ [1, 2, 3, 4, 5].flatMap fun random =>
    [.send .bob random, .deliver .alice 0, .send .alice random, .deliver .bob 0]

/-- Bob stores the key of alice's first message, and does not decrypt it. -/
def stranded (world : World (KeyTerm Bytes Bytes Bytes) SymbolicMessage) : Bool :=
  match (world.endpoint .bob).ratchet.skippedMessageKeys.toList.head?, world.sent.getLast? with
  | some entry, some s =>
    s.sender = .alice && header symbolicRatchet s.message = (entry.ratchetKey, entry.messageKey.index) &&
      ((world.endpoint .bob).ratchet.decrypt symbolicRatchet s.message s.plaintext.length).2.isNone
  | _, _ => false

theorem skippedKey_not_usable :
    ¬ ∀ (world : World (KeyTerm Bytes Bytes Bytes) SymbolicMessage) (side : Side)
      (entry : SkippedMessageKey (KeyTerm Bytes Bytes Bytes)) (s : SentMessage SymbolicMessage),
      Reachable symbolicRatchet (World.Orderly symbolicRatchet) [] symbolicPair world →
        entry ∈ (world.endpoint side).ratchet.skippedMessageKeys.toList → s ∈ world.sent → s.sender = side.peer →
          header symbolicRatchet s.message = (entry.ratchetKey, entry.messageKey.index) →
            ((world.endpoint side).ratchet.decrypt symbolicRatchet s.message s.plaintext.length).2 =
              some s.plaintext := by
  intro usable
  have checked : (play symbolicRatchet (start symbolicRatchet (fun _ => clearedRatchet .zero) [] symbolicPair)
      skippedMoves).any stranded := by decide +kernel
  obtain ⟨world, played, stranded⟩ := (Option.any_eq_true _ _).mp checked
  unfold World.stranded at stranded
  split at stranded
  · rename_i entry s stored sent
    simp only [Bool.and_eq_true, decide_eq_true_eq, Option.isNone_iff_eq_none] at stranded
    obtain ⟨⟨theirs, same⟩, failed⟩ := stranded
    have opened := usable world .bob entry s ⟨_, run_of_play played⟩ (List.mem_of_head? stored)
      (List.mem_of_getLast? sent) theirs same
    rw [failed] at opened
    cases opened
  · cases stranded

end World

end RubyOlm
