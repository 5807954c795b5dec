import RubyOlm.DoubleRatchet.Commute
import RubyOlm.DoubleRatchet.KeyUse
import RubyOlm.DoubleRatchet.SkippedKeys
import RubyOlm.Theory.Reorder

/-!
# Delivery in either order

Two messages that a ratchet decrypts in both orders leave it with the same keys, as long as neither order
pushes a receiver chain or a skipped key out of its list. In runs with new ratchet keys and short chains all
messages have different headers, and then this is so whatever the key derivation and the cipher are. If the
one is free and the other ideal, a message goes with its place in the exchange, and no header is looked at.
-/

namespace RubyOlm

namespace Ratchet

open Exchange

variable {Key Msg : Type} {ops : RatchetOps Key Msg} {secret : Bytes} {side : Side} {ratchet ratchet' : Ratchet Key}
  {party : Party Curve25519KeyPair} {place : Place Curve25519KeyPair} {plaintext plaintext' : Bytes} {message : Msg}
  {maxPlaintextLength : Nat}

/-- To decrypt a message with this ratchet key and counter takes more receiver chains or skipped keys than there
is space for. -/
def Evicts (ratchet : Ratchet Key) (ratchetKey : PublicKey) (counter : UInt32) : Prop :=
  findChain ratchetKey ratchet.receiverChains.toList = none ∧ ratchet.receiverChains.size = maxReceiverChains ∨
    maxSkippedMessageKeys < ratchet.skippedMessageKeys.size + (ratchet.passedOver ratchetKey counter).length

instance (ratchet : Ratchet Key) (ratchetKey : PublicKey) (counter : UInt32) :
    Decidable (ratchet.Evicts ratchetKey counter) :=
  inferInstanceAs (Decidable (_ ∧ _ ∨ _))

variable (ops) in
/-- `ratchet` decrypts `message` to `plaintext` and evicts nothing. -/
structure Delivers (ratchet : Ratchet Key) (message : Msg) (plaintext : Bytes) (ratchet' : Ratchet Key) : Prop where
  done : ∃ maxPlaintextLength, ratchet.decrypt ops message maxPlaintextLength = (ratchet', some plaintext)
  kept : ¬ ratchet.Evicts (World.header ops message).1 (World.header ops message).2

/-! ### By the header -/

theorem checkReader_header {reader : CheckedReader Msg} (checked : checkReader ops message maxPlaintextLength = .ok reader) :
    World.header ops message = (reader.ratchetKey, reader.counter) := by
  obtain ⟨counter, ratchetKey, -⟩ := checkReader_eq_ok ops checked
  simp only [World.header, counter, ratchetKey, Option.getD_some, Block.load_val]

theorem checkReader_unique {reader reader' : CheckedReader Msg} {maxPlaintextLength' : Nat}
    (checked : checkReader ops message maxPlaintextLength = .ok reader)
    (checked' : checkReader ops message maxPlaintextLength' = .ok reader') : reader' = reader := by
  have header := (checkReader_header checked').symm.trans (checkReader_header checked)
  obtain ⟨ratchetKey, counter⟩ := Prod.mk.inj header
  obtain ⟨-, -, ciphertext, input, -⟩ := checkReader_eq_ok ops checked
  obtain ⟨-, -, ciphertext', input', -⟩ := checkReader_eq_ok ops checked'
  rw [ciphertext] at ciphertext'
  obtain ⟨_, _, _, _⟩ := reader
  obtain ⟨_, _, _, _⟩ := reader'
  simp only [CheckedReader.mk.injEq]
  exact ⟨input'.trans input.symm, counter, ratchetKey, (Option.some.inj ciphertext').symm⟩

theorem length_passedOver_new {ratchetKey : PublicKey} {counter : UInt32}
    (unknown : findChain ratchetKey ratchet.receiverChains.toList = none) :
    (ratchet.passedOver ratchetKey counter).length = counter.toNat := by
  simp only [passedOver, unknown, List.length_map, List.length_reverse, List.length_range, UInt32.toNat_zero,
    Nat.sub_zero]

theorem length_passedOver_live {ratchetKey : PublicKey} {counter : UInt32} {pos count : Nat}
    {chain : ReceiverChain Key} (found : findChain ratchetKey ratchet.receiverChains.toList = some (pos, chain))
    (ahead : counter.toNat = chain.chainKey.index.toNat + count) :
    (ratchet.passedOver ratchetKey counter).length = count := by
  simp only [passedOver, found, List.length_map, List.length_reverse, List.length_range, ahead,
    Nat.add_sub_cancel_left]

theorem length_skippedFrom (chain : ReceiverChain Key) (count : Nat) : (skippedFrom ops chain count).length = count := by
  simp only [skippedFrom, List.length_map, List.length_reverse, List.length_range]

/-- A delivery that evicts nothing is what the message takes. -/
theorem Delivers.taken (roomy : ops.wire.Roomy) (delivers : Delivers ops ratchet message plaintext ratchet') :
    ∃ reader, (∃ maxPlaintextLength, checkReader ops message maxPlaintextLength = .ok reader) ∧
      Taken ops ratchet reader plaintext ratchet' := by
  obtain ⟨maxPlaintextLength, done⟩ := delivers.done
  have kept := delivers.kept
  obtain ⟨reader, checked, decrypted⟩ := decrypt_eq_some ops done
  refine ⟨reader, ⟨maxPlaintextLength, checked⟩, ?_⟩
  obtain ⟨-, -, -, -, room⟩ := checkReader_eq_ok ops checked
  have opens (key : Key) : ops.wire.decrypt key reader.input reader.ciphertext maxPlaintextLength =
      opening ops reader key := roomy key reader.input reader.ciphertext maxPlaintextLength room
  rw [checkReader_header checked, Evicts, not_or, not_and, Nat.not_lt] at kept
  dsimp only at kept
  obtain ⟨chains, skipped_room⟩ := kept
  -- what is put in front does not push anything out
  have fits {newer : List (SkippedMessageKey Key)}
      (length : newer.length = (ratchet.passedOver reader.ratchetKey reader.counter).length) :
      (newer ++ ratchet.skippedMessageKeys.toList).take maxSkippedMessageKeys =
        newer ++ ratchet.skippedMessageKeys.toList := by
    refine List.take_of_length_le ?_
    rw [List.length_append, length, OlmList.length_toList]
    omega
  cases decrypted with
  | newChain rootKey chainKey unknown created turn opened root sender receivers skipped =>
    have index : 0 = chainKey.index := congrArg (fun made => made.2.index) created
    have ahead : reader.counter.toNat = chainKey.index.toNat + reader.counter.toNat := by
      rw [← index, UInt32.toNat_zero, Nat.zero_add]
    refine .movesOn ⟨.new (by rw [liveChain, unknown]; rfl) turn (by rw [root, created]) sender, ahead,
      (opens _).symm.trans opened, ?_, ?_⟩
    · have space := chains unknown
      have le := ratchet.receiverChains.size_le
      rw [receivers, List.take_of_length_le (by rw [List.length_cons, OlmList.length_toList]; omega), putChain,
        advanceBy_eq ahead, unknown]
    · rw [skipped, fits ((length_skippedFrom _ _).trans (length_passedOver_new unknown).symm)]
  | liveChain pos chain count found ahead opened root sender receivers skipped =>
    obtain ⟨-, named⟩ := findChain_eq_some found
    have live : liveChain reader.ratchetKey ratchet.receiverChains.toList = some chain := by
      rw [liveChain, found]
      rfl
    refine .movesOn ⟨.kept live root (congrArg OlmList.toList sender), ahead, (opens _).symm.trans opened, ?_, ?_⟩
    · rw [receivers, putChain, advanceBy_eq ahead, found]
    · rw [skipped, fits ((length_skippedFrom _ _).trans (length_passedOver_live found ahead).symm), ← named]
  | skippedKey pos key behind stored opened root sender receivers skipped =>
    obtain ⟨⟨pos', chain⟩, found, past⟩ := behind
    rw [decrypt, checked] at done
    obtain ⟨place, tried, rfl⟩ := decryptChecked_tried ops found past done
    obtain ⟨key, listed, probed⟩ := findSome?_of_trySkipped opens tried
    refine .fetches ⟨⟨chain, by rw [liveChain, found]; rfl, past⟩, probed, rfl, rfl, rfl, place, listed, ?_⟩
    exact toList_removeSkipped ops (List.getElem?_eq_some_iff.mp listed).1

/-! ### By the place -/

theorem Represents.receiving_length (represents : Represents ops secret side ratchet party) :
    party.receiving.length = ratchet.receiverChains.size := by
  rw [← OlmList.length_toList, represents.receivers, List.length_map]

theorem Represents.skipped_length (represents : Represents ops secret side ratchet party) :
    party.skipped.length = ratchet.skippedMessageKeys.size := by
  rw [← OlmList.length_toList, represents.skipped, List.length_map]

/-- A party takes a place on a new chain when the ratchet has no chain for it. -/
theorem Represents.unknown_of_newChain (ideal : ops.wire.Ideal) (represents : Represents ops secret side ratchet party)
    (ok : party.Ok maxSkippedMessageKeys side) (sent : SentAt ops secret place plaintext message)
    (done : ratchet.decrypt ops message maxPlaintextLength = (ratchet', some plaintext')) (turn : owner party.history = side)
    {party' : Party Curve25519KeyPair} (represents' : Represents ops secret side ratchet' party')
    (turn' : owner party'.history ≠ side) :
    findChain (ratchetKeyOf place.chain) ratchet.receiverChains.toList = none := by
  obtain ⟨pair, before, whole⟩ := List.exists_cons_of_ne_nil ok.started
  have live := represents.sender_of_turn whole turn
  have gone := represents'.no_sender turn'
  obtain ⟨reader, checked, decrypted⟩ := decrypt_eq_some ops done
  obtain ⟨-, ratchetKey, -, -⟩ := checkReader_sentAt ideal.toCorrect sent checked
  cases decrypted with
  | newChain rootKey chainKey unknown created turn opened root sender receivers skipped => exact ratchetKey ▸ unknown
  | liveChain pos chain count found ahead opened root sender receivers skipped =>
    rw [sender, live] at gone
    cases gone
  | skippedKey pos key behind stored opened root sender receivers skipped =>
    rw [sender, live] at gone
    cases gone

/-- A delivery that evicts nothing is a step of the party that pushes nothing out. -/
theorem Delivers.receives (free : ops.Free) (ideal : ops.wire.Ideal)
    (represents : Represents ops secret side ratchet party) (ok : party.Ok maxSkippedMessageKeys side)
    {whole : List Curve25519KeyPair} (known : party.history <:+ whole) (started : place.chain ≠ [])
    (suffix : place.chain <:+ whole) (sent : SentAt ops secret place plaintext message)
    (delivers : Delivers ops ratchet message plaintext' ratchet') :
    plaintext' = plaintext ∧ ∃ party', Receives maxReceiverChains maxSkippedMessageKeys side party place party' ∧
      Represents ops secret side ratchet' party' ∧ Keeps maxSkippedMessageKeys party party' := by
  obtain ⟨maxPlaintextLength, done⟩ := delivers.done
  have kept := delivers.kept
  rw [World.header_of_sentAt ideal.toCorrect sent, Evicts, not_or, not_and, Nat.not_lt] at kept
  simp only at kept
  obtain ⟨chains, skipped⟩ := kept
  obtain ⟨same, party', receives, represents', passed⟩ :=
    decrypt_receives free ideal represents ok known started suffix sent done
  refine ⟨same, party', receives, represents', ?_, ?_⟩
  · cases receives with
    | move moves =>
      cases moves with
      | newChain follows turn started =>
        have turn' : owner place.chain ≠ side := by
          obtain ⟨pair, rest, whole⟩ := List.exists_cons_of_ne_nil started
          rw [whole, List.tail_cons] at follows
          rw [whole, owner_cons, follows, turn]
          exact Side.peer_ne side
        have space := chains (represents.unknown_of_newChain ideal ok sent done turn represents' turn')
        have le := ratchet.receiverChains.size_le
        have length := represents.receiving_length
        intro next mem
        refine ⟨next, ?_, rfl⟩
        rw [List.take_of_length_le (by rw [List.length_cons]; omega)]
        exact List.mem_cons_of_mem _ mem
      | @onChain index next found ahead =>
        intro chain mem
        obtain ⟨i, read⟩ := List.mem_iff_getElem?.mp mem
        have inside := (List.getElem?_eq_some_iff.mp read).1
        by_cases moved : index = i
        · subst moved
          obtain rfl := Option.some.inj (found.symm.trans read)
          exact ⟨_, List.mem_set inside _, rfl⟩
        · exact ⟨chain, List.mem_of_getElem? (by rw [List.getElem?_set_ne moved, read]), rfl⟩
    | fetch found => exact fun next mem => ⟨next, mem, rfl⟩
  · have count := congrArg List.length passed
    simp only [placeNames, List.length_append, List.length_map] at count
    have length := represents.skipped_length
    omega

theorem received_known {party' : Party Curve25519KeyPair} {whole : List Curve25519KeyPair}
    (receives : Receives maxReceiverChains maxSkippedMessageKeys side party place party')
    (known : party.history <:+ whole) (suffix : place.chain <:+ whole) : party'.history <:+ whole := by
  rcases receives.history with same | ⟨-, -, new⟩
  · exact same ▸ known
  · exact new ▸ suffix

theorem Represents.sameKeys {party' : Party Curve25519KeyPair} (represents : Represents ops secret side ratchet party)
    (represents' : Represents ops secret side ratchet' party') (history : party.history = party'.history)
    (sending : party.sending = party'.sending) (receiving : party.receiving = party'.receiving)
    (skipped : party.skipped.Perm party'.skipped) : SameKeys ratchet ratchet' where
  root := by rw [represents.root, represents'.root, history]
  sender := by rw [represents.sender, represents'.sender, senderChainOf, senderChainOf, history, sending]
  receivers := by rw [represents.receivers, represents'.receivers, receiving]
  skipped := by
    rw [represents.skipped, represents'.skipped]
    exact skipped.map _

end Ratchet

namespace World

open Exchange Ratchet

variable {Key Msg : Type} {ops : RatchetOps Key Msg} {secret : Bytes} {world world' : World Key Msg} {side : Side}

/-! ### Headers of a fresh run -/

section Headers

variable {plaintext random : Bytes} {output : Buffer} {made : Sealing Key}

/-- A call that seals has a buffer for its message. -/
theorem sealing_room {ratchet : Ratchet Key} (seals : ratchet.sealing ops plaintext random output.val = some made) :
    ratchet.encryptOutputLength ops plaintext.length = ops.wire.outputLength made.counter plaintext.length ∧
      ratchet.encryptOutputLength ops plaintext.length ≤ output.val.length := by
  unfold sealing at seals
  split at seals
  · cases seals
  · rename_i enough
    obtain rfl := Option.some.inj seals
    refine ⟨?_, Nat.le_of_not_lt (not_or.mp enough).2⟩
    by_cases empty : ratchet.senderChain.empty
    · have live := startSenderChain_live ops ((OlmList.empty_iff _).mp empty) (Block.load 32 random)
      have sender := OlmList.data_zero_eq (by decide) live
      simp only [encryptOutputLength, empty, if_true, createMessageKeys]
      rw [Ratchet.sender, sender]
      rfl
    · simp only [encryptOutputLength, empty, Bool.false_eq_true, if_false, createMessageKeys]

theorem encrypt_sent (seals : (world.endpoint side).ratchet.sealing ops plaintext random output.val = some made) :
    ∃ message, (world.encrypt ops side plaintext random output.val).sent = ⟨side, message, plaintext⟩ :: world.sent ∧
      ops.wire.Writes made.key made.counter made.ratchetKey plaintext message := by
  have written := encrypt_eq_sealing ops (world.endpoint side).ratchet plaintext random output.val
  obtain ⟨length, room⟩ := sealing_room seals
  rw [seals, Option.map_some] at written
  have short := (List.length_take_le' ((world.endpoint side).ratchet.encryptOutputLength ops plaintext.length)
    output.val).trans_lt output.property
  refine ⟨_, ?_, ⟨_, short⟩, ?_, rfl⟩
  · unfold encrypt
    rcases done : (world.endpoint side).ratchet.encrypt ops plaintext random output.val with ⟨ratchet', message⟩
    rw [done] at written
    obtain rfl : message = some _ := written
    simp only [done]
  · rw [← length, List.length_take]
    omega

theorem encrypt_sent_of_not_sealing
    (fails : (world.endpoint side).ratchet.sealing ops plaintext random output.val = none) :
    (world.encrypt ops side plaintext random output.val).sent = world.sent := by
  unfold encrypt
  simp only
  rw [encrypt_of_not_sealing fails]
  rfl

theorem decrypt_sent (world : World Key Msg) (side : Side) (message : Msg) (maxPlaintextLength : Nat) :
    (world.decrypt ops side message maxPlaintextLength).sent = world.sent := by
  unfold decrypt
  simp only
  split <;> rfl

variable (ops) in
/-- Every message that was sent has a header of its own, which its sender is past. -/
structure Headed (world : World Key Msg) : Prop where
  apart : Apart world
  past : ∀ s ∈ world.sent, Past world s.sender (header ops s.message).1 (header ops s.message).2
  short : ∀ s ∈ world.sent, (header ops s.message).2.toNat + 1 < 2 ^ 32
  distinct : (world.sent.map fun s => header ops s.message).Nodup

theorem start_headed (memory : Side → Ratchet Key) (pair : Curve25519KeyPair) :
    Headed ops (start ops memory secret pair : World Key Msg) :=
  ⟨start_apart memory pair, fun _ mem => absurd mem List.not_mem_nil, fun _ mem => absurd mem List.not_mem_nil,
    List.nodup_nil⟩

/-- An event that sends nothing. -/
theorem Headed.of_sent (headed : Headed ops world) {event : Event Msg} (fresh : Fresh ops world event)
    (sent : (world.step ops event).sent = world.sent) : Headed ops (world.step ops event) := by
  have uses := step_uses event fresh
  refine ⟨headed.apart.uses uses, fun s mem => ?_, fun s mem => headed.short s (sent ▸ mem), sent ▸ headed.distinct⟩
  exact (headed.past s (sent ▸ mem)).uses uses

theorem Headed.step (correct : ops.wire.Correct) (headed : Headed ops world) {event : Event Msg}
    (fresh : Fresh ops world event) : Headed ops (world.step ops event) := by
  cases event with
  | decrypt side message maxPlaintextLength => exact headed.of_sent fresh (decrypt_sent world side message _)
  | encrypt side plaintext random output =>
    rcases seals : (world.endpoint side).ratchet.sealing ops plaintext random output.val with _ | made
    · exact headed.of_sent fresh (encrypt_sent_of_not_sealing seals)
    · obtain ⟨message, sent, writes⟩ := encrypt_sent seals
      have uses := step_uses _ fresh
      have shows := header_of_writes correct writes
      have sent : (world.step ops (.encrypt side plaintext random output)).sent = _ := sent
      refine ⟨headed.apart.uses uses, ?_, ?_, ?_⟩
      · intro s mem
        rw [sent] at mem
        cases List.mem_cons.mp mem with
        | inl new =>
          rw [new, shows]
          exact headed.apart.past fresh seals
        | inr old => exact (headed.past s old).uses uses
      · intro s mem
        rw [sent] at mem
        cases List.mem_cons.mp mem with
        | inl new =>
          rw [new, shows]
          obtain ⟨chain, sends, rfl, -⟩ := encrypt_of_sealing ops seals
          exact (chain_of_fresh fresh seals sends).2
        | inr old => exact headed.short s old
      · rw [sent, List.map_cons, List.nodup_cons, shows]
        refine ⟨fun mem => ?_, headed.distinct⟩
        obtain ⟨s, old, same⟩ := List.mem_map.mp mem
        exact (headed.past s old).not_used fresh seals same

theorem Run.headed (correct : ops.wire.Correct) (run : Run ops (Fresh ops) world world') (headed : Headed ops world) :
    Headed ops world' := by
  induction run with
  | refl => exact headed
  | step event _ _ fresh ih => exact ih.step correct fresh

end Headers

/-! ### Two messages of a run -/

section Two

variable {s s' : SentMessage Msg} (mem : s ∈ world.sent) (mem' : s' ∈ world.sent) (different : s ≠ s')
  {plaintext plaintext' plaintext₂ plaintext₂' : Bytes} {ratchet₁ ratchet₂ ending ending₂ : Ratchet Key}
  (first : Delivers ops (world.endpoint side).ratchet s.message plaintext ratchet₁)
  (second : Delivers ops ratchet₁ s'.message plaintext' ending)
  (first₂ : Delivers ops (world.endpoint side).ratchet s'.message plaintext₂' ratchet₂)
  (second₂ : Delivers ops ratchet₂ s.message plaintext₂ ending₂)
include mem mem' different first second first₂ second₂

theorem Headed.delivery_comm (roomy : ops.wire.Roomy) (headed : Headed ops world) :
    plaintext = plaintext₂ ∧ plaintext' = plaintext₂' ∧ SameKeys ending ending₂ := by
  obtain ⟨reader, ⟨_, checked⟩, taken⟩ := first.taken roomy
  obtain ⟨reader', ⟨_, checked'⟩, then_taken⟩ := second.taken roomy
  obtain ⟨_, ⟨_, checked₂'⟩, taken₂⟩ := first₂.taken roomy
  obtain ⟨_, ⟨_, checked₂⟩, then_taken₂⟩ := second₂.taken roomy
  obtain rfl := checkReader_unique checked checked₂
  obtain rfl := checkReader_unique checked' checked₂'
  have short := headed.short s mem
  have short' := headed.short s' mem'
  have apart : header ops s.message ≠ header ops s'.message :=
    fun same => different (List.inj_on_of_nodup_map headed.distinct mem mem' same)
  rw [checkReader_header checked] at short apart
  rw [checkReader_header checked'] at short' apart
  exact taken.comm apart short short' then_taken taken₂ then_taken₂

theorem Tracks.delivery_comm (free : ops.Free) (ideal : ops.wire.Ideal) {duo : Duo Curve25519KeyPair}
    (tracks : Tracks ops secret world duo) :
    plaintext = plaintext₂ ∧ plaintext' = plaintext₂' ∧ SameKeys ending ending₂ := by
  obtain ⟨place, known, -, carries⟩ := tracks.sent s mem
  obtain ⟨place', known', -, carries'⟩ := tracks.sent s' mem'
  obtain ⟨started, chain, -⟩ := tracks.ok.sent place known
  obtain ⟨started', chain', -⟩ := tracks.ok.sent place' known'
  obtain ⟨whole, common⟩ := tracks.ok.common
  have apart : place ≠ place' := by
    rintro rfl
    exact different (tracks.unique s mem s' mem' place carries carries')
  have ok := tracks.ok.party side
  have knownP := chain.trans (common _)
  have knownQ := chain'.trans (common _)
  obtain ⟨text, afterP, p_first, representsP, keepsP⟩ :=
    first.receives free ideal (tracks.ends side).represents ok (common side) started knownP carries
  obtain ⟨text', endPQ, q_next, representsPQ, keepsPQ⟩ := second.receives free ideal representsP
    (p_first.ok ok (by decide)) (received_known p_first (common side) knownP) started' knownQ carries'
  obtain ⟨text₂', afterQ, q_first, representsQ, keepsQ⟩ :=
    first₂.receives free ideal (tracks.ends side).represents ok (common side) started' knownQ carries'
  obtain ⟨text₂, endQP, p_next, representsQP, keepsQP⟩ := second₂.receives free ideal representsQ
    (q_first.ok ok (by decide)) (received_known q_first (common side) knownQ) started knownP carries
  obtain ⟨history, sending, receiving, skipped⟩ := Receives.comm (by decide) ok apart p_first q_next q_first p_next
    keepsP keepsPQ keepsQ keepsQP
  exact ⟨text.trans text₂.symm, text'.trans text₂'.symm,
    representsPQ.sameKeys representsQP history sending receiving skipped⟩

end Two

/-- Two messages of the run give the same plaintexts and leave the same keys in either order: whatever the key
derivation and the cipher are if every chain is new and has fewer than `2 ^ 32` messages, and in every run if the
one is free and the other ideal. -/
theorem delivery_order {pair : Curve25519KeyPair}
    (reached : ops.wire.Correct ∧ ops.wire.Roomy ∧ Reachable ops (Fresh ops) secret pair world ∨
      ops.Free ∧ ops.wire.Ideal ∧ Reachable ops (fun _ _ => True) secret pair world)
    {s s' : SentMessage Msg} (mem : s ∈ world.sent) (mem' : s' ∈ world.sent) (different : s ≠ s')
    {plaintext plaintext' plaintext₂ plaintext₂' : Bytes} {ratchet₁ ratchet₂ ending ending₂ : Ratchet Key}
    (first : Delivers ops (world.endpoint side).ratchet s.message plaintext ratchet₁)
    (second : Delivers ops ratchet₁ s'.message plaintext' ending)
    (first₂ : Delivers ops (world.endpoint side).ratchet s'.message plaintext₂' ratchet₂)
    (second₂ : Delivers ops ratchet₂ s.message plaintext₂ ending₂) :
    plaintext = plaintext₂ ∧ plaintext' = plaintext₂' ∧ SameKeys ending ending₂ := by
  cases reached with
  | inl fresh =>
    obtain ⟨correct, roomy, memory, run⟩ := fresh
    have headed := run.headed correct (start_headed memory pair)
    exact headed.delivery_comm mem mem' different first second first₂ second₂ roomy
  | inr symbolic =>
    obtain ⟨free, ideal, reached⟩ := symbolic
    obtain ⟨duo, tracks⟩ := reached.tracks free ideal
    exact tracks.delivery_comm mem mem' different first second first₂ second₂ free ideal

theorem delivery_order_symbolic :
    SameKeys
      (((twoSentWorld.endpoint .bob).ratchet.decrypt symbolicRatchet twoSentFirst.message 0).1.decrypt symbolicRatchet
        twoSentSecond.message 0).1
      (((twoSentWorld.endpoint .bob).ratchet.decrypt symbolicRatchet twoSentSecond.message 0).1.decrypt symbolicRatchet
        twoSentFirst.message 0).1 := by
  have fresh : Fresh symbolicRatchet startedWorld emptySend := by
    intro _
    rw [if_neg (by decide)]
    decide
  have fresh' : Fresh symbolicRatchet (startedWorld.step symbolicRatchet emptySend) emptySend := by
    intro _
    rw [if_neg (by decide)]
    decide
  have run : Run symbolicRatchet (Fresh symbolicRatchet) startedWorld twoSentWorld :=
    .step emptySend (.step emptySend .refl trivial fresh) trivial fresh'
  have roomy : symbolicRatchet.wire.Roomy := fun _ _ _ _ _ => rfl
  have delivers {ratchet : Ratchet (KeyTerm Bytes Bytes Bytes)} {message : SymbolicMessage}
      (opened : (ratchet.decrypt symbolicRatchet message 0).2 = some [])
      (kept : ¬ ratchet.Evicts (header symbolicRatchet message).1 (header symbolicRatchet message).2) :
      Delivers symbolicRatchet ratchet message [] (ratchet.decrypt symbolicRatchet message 0).1 :=
    ⟨⟨0, Prod.ext rfl opened⟩, kept⟩
  have first : twoSentFirst ∈ twoSentWorld.sent := by
    rw [twoSentWorld_sent]
    exact List.mem_cons_of_mem _ List.mem_cons_self
  have second : twoSentSecond ∈ twoSentWorld.sent := by
    rw [twoSentWorld_sent]
    exact List.mem_cons_self
  have different : twoSentFirst ≠ twoSentSecond := by
    intro same
    cases congrArg (fun s => s.message.counter) same
  have inOrder : Delivers symbolicRatchet (twoSentWorld.endpoint .bob).ratchet twoSentFirst.message [] _ :=
    delivers (by decide +kernel) (by decide +kernel)
  have swapped : Delivers symbolicRatchet (twoSentWorld.endpoint .bob).ratchet twoSentSecond.message [] _ :=
    delivers (by decide +kernel) (by decide +kernel)
  obtain ⟨-, -, same⟩ := delivery_order (.inl ⟨symbolicWire_ideal.toCorrect, roomy, _, run⟩) first second
    different inOrder (delivers (by decide +kernel) (by decide +kernel)) swapped
    (delivers (by decide +kernel) (by decide +kernel))
  exact same

end World

end RubyOlm
