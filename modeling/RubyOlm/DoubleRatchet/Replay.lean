import RubyOlm.DoubleRatchet.Simulation
import RubyOlm.DoubleRatchet.Symbolic

/-!
# No replay

A message that a ratchet has decrypted is never decrypted by it again, and its key is gone: hashing leads
to it from none of the keys that the ratchet still holds.
-/

namespace RubyOlm.Ratchet

open Exchange

variable {Key Msg : Type} {ops : RatchetOps Key Msg} {secret : Bytes} {side : Side} {ratchet : Ratchet Key}
  {party : Party Curve25519KeyPair}

theorem Represents.live (represents : Represents ops secret side ratchet party) {key : Key} (live : ratchet.Live key) :
    key = (derived ops secret party.history).1 ∨
      (owner party.history = side ∧ key = chainKeyAt ops secret ⟨party.history, party.sending⟩) ∨
      (∃ next ∈ party.receiving, key = chainKeyAt ops secret next) ∨
      ∃ place ∈ party.skipped, key = placeKey ops secret place := by
  cases live with
  | root => exact Or.inl represents.root
  | @sender chain mem =>
    have turn := represents.turn (List.ne_nil_of_mem mem)
    refine Or.inr (Or.inl ⟨turn, ?_⟩)
    rw [represents.sender, senderChainOf] at mem
    split at mem
    · cases mem
    · rename_i whole
      rw [whole] at turn
      rw [if_pos turn, List.mem_singleton] at mem
      rw [mem, whole]
  | receiver mem =>
    rw [represents.receivers] at mem
    obtain ⟨next, known, rfl⟩ := List.mem_map.mp mem
    exact Or.inr (Or.inr (Or.inl ⟨next, known, rfl⟩))
  | skipped mem =>
    rw [represents.skipped] at mem
    obtain ⟨place, kept, rfl⟩ := List.mem_map.mp mem
    exact Or.inr (Or.inr (Or.inr ⟨place, kept, rfl⟩))

variable (ops secret) in
theorem derived_fst_cases (chain : List Curve25519KeyPair) (started : chain ≠ []) :
    ∃ input salt info, (derived ops secret chain).1 = (ops.hkdf input salt info).1 := by
  rcases chain with _ | ⟨pair, _ | ⟨last, before⟩⟩
  · exact absurd rfl started
  · exact ⟨_, _, _, rfl⟩
  · exact ⟨_, _, _, rfl⟩

theorem placeKey_ne_chainKeyAt (free : ops.Free) {place next : Place Curve25519KeyPair} (started : next.chain ≠ []) :
    placeKey ops secret place ≠ chainKeyAt ops secret next := by
  intro same
  obtain ⟨chain, position⟩ := next
  cases position with
  | zero => exact derived_root secret free started _ _ same
  | succ position =>
    unfold placeKey at same
    rw [chainKeyAt_succ] at same
    exact absurd (free.hmac_inj same).2 (by decide)

theorem chainKeyAt_ne_root (free : ops.Free) {place : Place Curve25519KeyPair} (started : place.chain ≠ [])
    {input : Bytes} {salt : Option Key} {info : Bytes} : chainKeyAt ops secret place ≠ (ops.hkdf input salt info).1 := by
  intro same
  obtain ⟨chain, position⟩ := place
  cases position with
  | zero =>
    rcases chain with _ | ⟨pair, _ | ⟨last, before⟩⟩
    · exact absurd rfl started
    · exact free.fst_ne_snd _ _ _ _ _ _ same.symm
    · exact free.fst_ne_snd _ _ _ _ _ _ same.symm
  | succ position =>
    rw [chainKeyAt_succ] at same
    exact free.hmac_ne_fst _ _ _ _ _ same

/-- The key of a place that a party is past, and does not remember, cannot be derived any more. -/
theorem Represents.erased (free : ops.Free) (represents : Represents ops secret side ratchet party)
    (ok : party.Ok maxSkippedMessageKeys side) {place : Place Curve25519KeyPair} (behind : Behind side party place)
    (forgotten : place ∉ party.skipped) : ¬ ops.Derives ratchet.Live (placeKey ops secret place) := by
  intro derives
  obtain ⟨input, salt, info, root⟩ := derived_fst_cases ops secret party.history ok.started
  rcases free.derives_hmac derives with live | derives
  · rcases represents.live live with same | ⟨-, same⟩ | ⟨next, known, same⟩ | ⟨kept, mem, same⟩
    · rw [root] at same
      exact free.hmac_ne_fst _ _ _ _ _ same
    · exact placeKey_ne_chainKeyAt free ok.started same
    · exact placeKey_ne_chainKeyAt free (ok.known next known).1 same
    · have kept_behind := ok.skipped_behind kept mem
      have := placeKey_inj secret free behind.started kept_behind.started behind.chain kept_behind.chain same
      exact forgotten (this ▸ mem)
  · have start_root := derived_root secret free behind.started
    obtain ⟨position, le, live⟩ := free.derives_chain start_root derives
    have live : ratchet.Live (chainKeyAt ops secret ⟨place.chain, position⟩) := live
    have started : (⟨place.chain, position⟩ : Place Curve25519KeyPair).chain ≠ [] := behind.started
    rcases represents.live live with same | ⟨turn, same⟩ | ⟨next, known, same⟩ | ⟨kept, mem, same⟩
    · rw [root] at same
      exact chainKeyAt_ne_root free started same
    · -- the sender chain is our own, and the place is on a chain of the other side
      obtain ⟨-, start⟩ := free.chain_inj start_root (derived_root secret free ok.started) same
      have chain := start_inj secret free behind.started ok.started behind.chain List.suffix_rfl start
      have theirs := behind.owner
      rw [chain, turn] at theirs
      exact Side.peer_ne side theirs.symm
    · obtain ⟨started, suffix, -⟩ := ok.known next known
      obtain ⟨reached, start⟩ := free.chain_inj start_root (derived_root secret free started) same
      have chain := start_inj secret free behind.started started behind.chain suffix start
      have := behind.position next known chain.symm
      simp only at reached
      omega
    · exact placeKey_ne_chainKeyAt free started same.symm

end RubyOlm.Ratchet

namespace RubyOlm.World

open Exchange Ratchet

variable {Key Msg : Type} {ops : RatchetOps Key Msg} {secret : Bytes} {world world' : World Key Msg}
  {duo : Duo Curve25519KeyPair} {side : Side} {message : Msg}

theorem Tracks.not_decrypted_again (free : ops.Free) (ideal : ops.wire.Ideal) (tracks : Tracks ops secret world duo)
    (opened : message ∈ (world.endpoint side).opened) (maxPlaintextLength : Nat) :
    ((world.endpoint side).ratchet.decrypt ops message maxPlaintextLength).2 = none := by
  obtain ⟨s, mem, rfl, place, opened, carries⟩ := (tracks.ends side).opened message opened
  have ok := tracks.ok.party side
  have behind := ok.opened_behind place opened
  rcases done : (world.endpoint side).ratchet.decrypt ops s.message maxPlaintextLength with ⟨ratchet', _ | plaintext⟩
  · rfl
  · obtain ⟨-, party', receives, -⟩ := decrypt_receives free ideal (tracks.ends side).represents ok List.suffix_rfl
      behind.started behind.chain carries done
    exact absurd opened (receives.unopened ok)

theorem Tracks.key_erased (free : ops.Free) (ideal : ops.wire.Ideal) (tracks : Tracks ops secret world duo)
    (opened : message ∈ (world.endpoint side).opened) {key : Key} {ciphertext plaintext : Bytes}
    {maxPlaintextLength : Nat} (opens : ops.wire.decrypt key message ciphertext maxPlaintextLength = some plaintext) :
    ¬ ops.Derives (world.endpoint side).ratchet.Live key := by
  obtain ⟨s, mem, rfl, place, opened, carries⟩ := (tracks.ends side).opened message opened
  have ok := tracks.ok.party side
  rw [ideal.only carries opens]
  exact (tracks.ends side).represents.erased free ok (ok.opened_behind place opened) (ok.opened_gone place opened)

theorem decrypted_once (free : ops.Free) (ideal : ops.wire.Ideal) {pair : Curve25519KeyPair}
    (reached : Reachable ops (fun _ _ => True) secret pair world) (genuine : ∃ s ∈ world.sent, s.message = message)
    {maxPlaintextLength : Nat}
    (success : ((world.endpoint side).ratchet.decrypt ops message maxPlaintextLength).2 ≠ none)
    (later : Run ops (fun _ _ => True) (world.step ops (.decrypt side message maxPlaintextLength)) world') :
    (∀ maxPlaintextLength', ((world'.endpoint side).ratchet.decrypt ops message maxPlaintextLength').2 = none) ∧
      ∀ key ciphertext maxPlaintextLength' plaintext,
        ops.wire.decrypt key message ciphertext maxPlaintextLength' = some plaintext →
          ¬ ops.Derives (world'.endpoint side).ratchet.Live key := by
  have opened : message ∈ (world'.endpoint side).opened := by
    apply later.opened_subset side
    simp only [step, decrypt]
    rcases done : (world.endpoint side).ratchet.decrypt ops message maxPlaintextLength with ⟨ratchet', _ | plaintext⟩
    · rw [done] at success
      exact absurd rfl success
    · simp only [set_endpoint_self]
      exact List.mem_cons_self
  obtain ⟨memory, run⟩ := reached
  have run := (Run.step (.decrypt side message maxPlaintextLength) run genuine trivial).trans later
  obtain ⟨duo, tracks⟩ := run.tracks free ideal (start_tracks memory pair)
  exact ⟨tracks.not_decrypted_again free ideal opened,
    fun _ _ _ _ opens => tracks.key_erased free ideal opened opens⟩

theorem decrypted_once_symbolic :
    (((symbolicWorld.decrypt symbolicRatchet .bob symbolicMessage 1).endpoint .bob).ratchet.decrypt symbolicRatchet
        symbolicMessage 1).2 = none ∧
      ¬ symbolicRatchet.Derives
        ((symbolicWorld.decrypt symbolicRatchet .bob symbolicMessage 1).endpoint .bob).ratchet.Live
        symbolicMessage.key := by
  have reached : Reachable symbolicRatchet (fun _ _ => True) [] symbolicPair symbolicWorld :=
    ⟨_, .step _ .refl trivial trivial⟩
  have genuine : ∃ s ∈ symbolicWorld.sent, s.message = symbolicMessage := ⟨_, List.mem_cons_self, rfl⟩
  have success : ((symbolicWorld.endpoint .bob).ratchet.decrypt symbolicRatchet symbolicMessage 1).2 ≠ none := by
    decide
  obtain ⟨again, erased⟩ := decrypted_once symbolicRatchet_free symbolicWire_ideal reached genuine success .refl
  exact ⟨again 1, erased _ [] 1 _ (symbolicWire_opens symbolicMessage [] 1)⟩

end RubyOlm.World
