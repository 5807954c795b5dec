import RubyOlm.DoubleRatchet.Represents

/-!
# Runs as exchanges

Every reachable world of two ratchets stands for an exchange: its ratchets for the parties, its messages
for the places they were sent at.
-/

namespace RubyOlm.World

open Exchange Ratchet

variable {Key Msg : Type} (ops : RatchetOps Key Msg) (secret : Bytes)

/-- An end stands for a party: it has opened messages where the party has received. -/
structure TracksEnd (sent : List (SentMessage Msg)) (side : Side) (endpoint : Endpoint Key Msg)
    (party : Party Curve25519KeyPair) : Prop where
  represents : Represents ops secret side endpoint.ratchet party
  opened : ∀ message ∈ endpoint.opened, ∃ s ∈ sent, s.message = message ∧
    ∃ place ∈ party.opened, SentAt ops secret place s.plaintext s.message
  opened_back : ∀ place ∈ party.opened, ∃ s ∈ sent, SentAt ops secret place s.plaintext s.message ∧
    s.message ∈ endpoint.opened
  passed : endpoint.passed = placeNames party.passed

structure Tracks (world : World Key Msg) (duo : Duo Curve25519KeyPair) : Prop where
  ok : duo.Ok maxSkippedMessageKeys
  ends : ∀ side, TracksEnd ops secret world.sent side (world.endpoint side) (duo.party side)
  sent : ∀ s ∈ world.sent, ∃ place ∈ duo.sent,
    owner place.chain = s.sender ∧ SentAt ops secret place s.plaintext s.message
  unique : ∀ s ∈ world.sent, ∀ s' ∈ world.sent, ∀ place, SentAt ops secret place s.plaintext s.message →
    SentAt ops secret place s'.plaintext s'.message → s = s'

/-- What an event does to a world and to the exchange it stands for. -/
inductive Advances (world : World Key Msg) (duo : Duo Curve25519KeyPair) :
    Event Msg → World Key Msg → Duo Curve25519KeyPair → Prop
  | idle {event : Event Msg} (side : Side) (ratchet' : Ratchet Key)
      (same : ratchet' = { (world.endpoint side).ratchet with lastError := ratchet'.lastError }) :
      Advances world duo event (world.set side { world.endpoint side with ratchet := ratchet' }) duo
  | send {side : Side} {plaintext random : Bytes} {output : Buffer} {message : Msg} {ratchet' : Ratchet Key}
      {place : Place Curve25519KeyPair} {party' : Party Curve25519KeyPair}
      (done : (world.endpoint side).ratchet.encrypt ops plaintext random output.val = (ratchet', some message))
      (sends : Sends side (duo.party side) place party') (represents : Represents ops secret side ratchet' party')
      (carries : SentAt ops secret place plaintext message)
      (history : party'.history = duo.history side ∨ owner (duo.history side) ≠ side ∧
        party'.history = generateKey ops.curve25519 (Block.load 32 random) :: duo.history side) :
      Advances world duo (.encrypt side plaintext random output)
        { world.set side { world.endpoint side with
            ratchet := ratchet'
            sentUnder := ratchet'.senderKeys ++ (world.endpoint side).sentUnder } with
          sent := ⟨side, message, plaintext⟩ :: world.sent }
        { duo.set side party' with sent := place :: duo.sent }
  | receive {side : Side} {s : SentMessage Msg} {maxPlaintextLength : Nat} {ratchet' : Ratchet Key}
      {place : Place Curve25519KeyPair} {party' : Party Curve25519KeyPair} (mem : s ∈ world.sent)
      (known : place ∈ duo.sent) (carries : SentAt ops secret place s.plaintext s.message)
      (receives : Receives maxReceiverChains maxSkippedMessageKeys side (duo.party side) place party')
      (represents : Represents ops secret side ratchet' party')
      (passed : placeNames party'.passed = (world.endpoint side).ratchet.passedOver (ratchetKeyOf place.chain)
        (counterOf place) ++ placeNames (duo.party side).passed) :
      Advances world duo (.decrypt side s.message maxPlaintextLength)
        (world.set side { world.endpoint side with
          ratchet := ratchet'
          opened := s.message :: (world.endpoint side).opened
          seen := ratchet'.receiverKeys ++ (world.endpoint side).seen
          passed := (world.endpoint side).ratchet.passedOver (ratchetKeyOf place.chain) (counterOf place) ++
            (world.endpoint side).passed })
        (duo.set side party')

variable {ops secret} {world world' : World Key Msg} {duo duo' : Duo Curve25519KeyPair} {event : Event Msg}

theorem key_of_sentAt (ideal : ops.wire.Ideal) {place place' : Place Curve25519KeyPair} {plaintext plaintext' : Bytes}
    {message : Msg} (sent : SentAt ops secret place plaintext message)
    (sent' : SentAt ops secret place' plaintext' message) :
    placeKey ops secret place = placeKey ops secret place' := by
  obtain ⟨ciphertext, -, opens⟩ := ideal.reads sent
  exact ideal.only sent' (opens _ (le_refl _))

/-! ### One event -/

theorem encrypt_advances (tracks : Tracks ops secret world duo) (side : Side) (plaintext random : Bytes)
    (output : Buffer) :
    ∃ duo', Advances ops secret world duo (.encrypt side plaintext random output)
      (world.encrypt ops side plaintext random output.val) duo' := by
  unfold encrypt
  rcases done : (world.endpoint side).ratchet.encrypt ops plaintext random output.val with ⟨ratchet', _ | message⟩
  · simp only [done]
    exact ⟨duo, .idle side ratchet' (encrypt_eq_none ops done)⟩
  · simp only [done]
    obtain ⟨place, party', sends, represents, carries, history⟩ :=
      encrypt_sends (tracks.ends side).represents (tracks.ok.party side) done
    exact ⟨_, .send done sends represents carries history⟩

theorem decrypt_advances (free : ops.Free) (ideal : ops.wire.Ideal) (tracks : Tracks ops secret world duo) (side : Side)
    {s : SentMessage Msg} (mem : s ∈ world.sent) (maxPlaintextLength : Nat) :
    ∃ duo', Advances ops secret world duo (.decrypt side s.message maxPlaintextLength)
      (world.decrypt ops side s.message maxPlaintextLength) duo' := by
  unfold decrypt
  rcases done : (world.endpoint side).ratchet.decrypt ops s.message maxPlaintextLength with ⟨ratchet', _ | plaintext⟩
  · simp only [done]
    exact ⟨duo, .idle side ratchet' (decrypt_eq_none ops done)⟩
  · obtain ⟨place, known, -, carries⟩ := tracks.sent s mem
    obtain ⟨whole, common⟩ := tracks.ok.common
    obtain ⟨started, chain, -⟩ := tracks.ok.sent place known
    obtain ⟨-, party', receives, represents, passed⟩ := decrypt_receives free ideal (tracks.ends side).represents
      (tracks.ok.party side) (common side) started (chain.trans (common _)) carries done
    obtain ⟨ciphertext, read, -⟩ := ideal.reads carries
    refine ⟨duo.set side party', ?_⟩
    simp only [done, read, Option.getD_some, Block.load_val]
    exact .receive mem known carries receives represents passed

theorem step_advances (free : ops.Free) (ideal : ops.wire.Ideal) (tracks : Tracks ops secret world duo)
    (event : Event Msg) (genuine : world.Genuine event) :
    ∃ duo', Advances ops secret world duo event (world.step ops event) duo' := by
  cases event with
  | encrypt side plaintext random output => exact encrypt_advances tracks side plaintext random output
  | decrypt side message maxPlaintextLength =>
    obtain ⟨s, mem, rfl⟩ := genuine
    exact decrypt_advances free ideal tracks side mem maxPlaintextLength

theorem Advances.ok (ok : duo.Ok maxSkippedMessageKeys) (advances : Advances ops secret world duo event world' duo') :
    duo'.Ok maxSkippedMessageKeys := by
  cases advances with
  | idle side ratchet' same => exact ok
  | send done sends represents carries history =>
    have step : duo.Step maxReceiverChains maxSkippedMessageKeys _ := .send sends
    exact step.ok (by decide) ok
  | receive mem known carries receives represents passed =>
    have step : duo.Step maxReceiverChains maxSkippedMessageKeys _ := .receive known receives
    exact step.ok (by decide) ok

theorem TracksEnd.mono {sent sent' : List (SentMessage Msg)} {side : Side} {endpoint : Endpoint Key Msg}
    {party : Party Curve25519KeyPair} (tracks : TracksEnd ops secret sent side endpoint party) (more : sent ⊆ sent') :
    TracksEnd ops secret sent' side endpoint party where
  represents := tracks.represents
  opened message mem := by
    obtain ⟨s, old, rest⟩ := tracks.opened message mem
    exact ⟨s, more old, rest⟩
  opened_back place mem := by
    obtain ⟨s, old, rest⟩ := tracks.opened_back place mem
    exact ⟨s, more old, rest⟩
  passed := tracks.passed

theorem Tracks.ends_set (tracks : Tracks ops secret world duo) {sent : List (SentMessage Msg)}
    (more : world.sent ⊆ sent) {side : Side} {endpoint : Endpoint Key Msg} {party : Party Curve25519KeyPair}
    (next : TracksEnd ops secret sent side endpoint party) (other : Side) :
    TracksEnd ops secret sent other ((world.set side endpoint).endpoint other) ((duo.set side party).party other) := by
  by_cases same : other = side
  · subst same
    rw [set_endpoint_self, Duo.set_party_self]
    exact next
  · rw [set_endpoint_of_ne _ same, Duo.set_party_of_ne _ same]
    exact (tracks.ends other).mono more

variable (ops secret) in
/-- The places of an exchange are told by what was sent at them. -/
def Told (duo : Duo Curve25519KeyPair) : Prop :=
  ∀ place ∈ duo.sent, ∀ place' ∈ duo.sent, ∀ p {plaintext plaintext' : Bytes} {message message' : Msg},
    SentAt ops secret place plaintext message → SentAt ops secret p plaintext message →
      SentAt ops secret p plaintext' message' → SentAt ops secret place' plaintext' message' → place = place'

theorem told_of_ideal (free : ops.Free) (ideal : ops.wire.Ideal) (ok : duo.Ok maxSkippedMessageKeys) :
    Told ops secret duo := by
  intro place sent place' sent' p plaintext plaintext' message message' carries here there carries'
  have key := (key_of_sentAt ideal carries here).trans (key_of_sentAt ideal there carries')
  obtain ⟨whole, common⟩ := ok.common
  obtain ⟨started, chain, -⟩ := ok.sent place sent
  obtain ⟨started', chain', -⟩ := ok.sent place' sent'
  exact placeKey_inj secret free started started' (chain.trans (common _)) (chain'.trans (common _)) key

theorem Advances.tracks_of_told (tracks : Tracks ops secret world duo)
    (advances : Advances ops secret world duo event world' duo') (told : Told ops secret duo') :
    Tracks ops secret world' duo' := by
  have ok := advances.ok tracks.ok
  cases advances with
  | idle side ratchet' same =>
    refine ⟨ok, ?_, tracks.sent, tracks.unique⟩
    intro other
    have before := tracks.ends other
    by_cases h : other = side
    · subst h
      rw [set_endpoint_self]
      exact { before with represents := before.represents.of_error same }
    · rw [set_endpoint_of_ne _ h]
      exact before
  | @send side plaintext random output message ratchet' place party' done sends represents carries history =>
    obtain ⟨-, -, -, opened, passed⟩ := sends.frame
    have before := tracks.ends side
    have more : world.sent ⊆ ⟨side, message, plaintext⟩ :: world.sent := List.subset_cons_self _ _
    refine ⟨ok, tracks.ends_set more ?_, ?_, ?_⟩
    · have before := before.mono more
      exact ⟨represents, by rw [opened]; exact before.opened, by rw [opened]; exact before.opened_back,
        by rw [passed]; exact before.passed⟩
    · intro s mem
      rcases List.mem_cons.mp mem with rfl | old
      · obtain ⟨whole, mine, -⟩ := sends.owner
        exact ⟨place, List.mem_cons_self, by rw [whole, mine], carries⟩
      · obtain ⟨place', known, rest⟩ := tracks.sent s old
        exact ⟨place', List.mem_cons_of_mem _ known, rest⟩
    · -- an older message was sent at another place
      have new (s : SentMessage Msg) (old : s ∈ world.sent) (p : Place Curve25519KeyPair)
          (here : SentAt ops secret p plaintext message) (there : SentAt ops secret p s.plaintext s.message) : False := by
        obtain ⟨place', known, -, carries'⟩ := tracks.sent s old
        have same := told place List.mem_cons_self place' (List.mem_cons_of_mem _ known) p carries here there carries'
        exact tracks.ok.sends_new sends (same ▸ known)
      intro s mem s' mem' p here there
      rcases List.mem_cons.mp mem with rfl | old <;> rcases List.mem_cons.mp mem' with rfl | old'
      · rfl
      · exact (new s' old' p here there).elim
      · exact (new s old p there here).elim
      · exact tracks.unique s old s' old' p here there
  | @receive side s maxPlaintextLength ratchet' place party' mem known carries receives represents passed =>
    have before := tracks.ends side
    have opened : party'.opened = place :: (duo.party side).opened := by cases receives <;> rfl
    refine ⟨ok, tracks.ends_set (fun _ old => old) ⟨represents, ?_, ?_, ?_⟩, tracks.sent, tracks.unique⟩
    · intro message opening
      rcases List.mem_cons.mp opening with rfl | old
      · exact ⟨s, mem, rfl, place, by rw [opened]; exact List.mem_cons_self, carries⟩
      · obtain ⟨s', mem', same, place', open', carries'⟩ := before.opened message old
        exact ⟨s', mem', same, place', by rw [opened]; exact List.mem_cons_of_mem _ open', carries'⟩
    · intro place' opening
      rw [opened] at opening
      rcases List.mem_cons.mp opening with rfl | old
      · exact ⟨s, mem, carries, List.mem_cons_self⟩
      · obtain ⟨s', mem', carries', open'⟩ := before.opened_back place' old
        exact ⟨s', mem', carries', List.mem_cons_of_mem _ open'⟩
    · rw [passed, before.passed]

theorem Advances.tracks (free : ops.Free) (ideal : ops.wire.Ideal) (tracks : Tracks ops secret world duo)
    (advances : Advances ops secret world duo event world' duo') : Tracks ops secret world' duo' :=
  advances.tracks_of_told tracks (told_of_ideal free ideal (advances.ok tracks.ok))

/-! ### Runs -/

theorem start_tracks (memory : Side → Ratchet Key) (pair : Curve25519KeyPair) :
    Tracks ops secret (start ops memory secret pair) (Duo.start pair) where
  ok := Duo.start_ok pair
  ends side := by
    cases side with
    | alice => exact ⟨represents_alice _ pair, nofun, nofun, rfl⟩
    | bob => exact ⟨represents_bob _ pair, nofun, nofun, rfl⟩
  sent := nofun
  unique := nofun

theorem Run.tracks (free : ops.Free) (ideal : ops.wire.Ideal) {allowed : World Key Msg → Event Msg → Prop}
    (tracks : Tracks ops secret world duo) (run : Run ops allowed world world') :
    ∃ duo', Tracks ops secret world' duo' := by
  induction run with
  | refl => exact ⟨duo, tracks⟩
  | step event _ genuine _ ih =>
    obtain ⟨duo', tracks'⟩ := ih
    obtain ⟨duo'', advances⟩ := step_advances free ideal tracks' event genuine
    exact ⟨duo'', advances.tracks free ideal tracks'⟩

theorem Reachable.tracks (free : ops.Free) (ideal : ops.wire.Ideal) {allowed : World Key Msg → Event Msg → Prop}
    {pair : Curve25519KeyPair} (reached : Reachable ops allowed secret pair world) :
    ∃ duo, Tracks ops secret world duo := by
  obtain ⟨memory, run⟩ := reached
  exact run.tracks free ideal (start_tracks memory pair)

end RubyOlm.World
