import RubyOlm.Theory.Exchange

/-!
# Both parties of an exchange

The two parties and all that was sent, with steps in any order. One history is always the other one, or the
other one with the chain that was just started.
-/

namespace RubyOlm

namespace Exchange

variable {Pair : Type}

structure Duo (Pair : Type) where
  party : Side → Party Pair
  sent : List (Place Pair)

namespace Duo

/-- Alice is to send on the first chain, which Bob is to receive. -/
def start (pair : Pair) : Duo Pair where
  party
    | .alice => ⟨[pair], 0, [], [], [], []⟩
    | .bob => ⟨[pair], 0, [⟨[pair], 0⟩], [], [], []⟩
  sent := []

def set (duo : Duo Pair) (side : Side) (party : Party Pair) : Duo Pair :=
  { duo with party := fun other => if other = side then party else duo.party other }

def history (duo : Duo Pair) (side : Side) : List Pair := (duo.party side).history

variable (maxChains maxSkipped : Nat) in
inductive Step (duo : Duo Pair) : Duo Pair → Prop
  | send {side : Side} {place : Place Pair} {party' : Party Pair} (sends : Sends side (duo.party side) place party') :
      Step duo { duo.set side party' with sent := place :: duo.sent }
  | receive {side : Side} {place : Place Pair} {party' : Party Pair} (mem : place ∈ duo.sent)
      (receives : Receives maxChains maxSkipped side (duo.party side) place party') :
      Step duo (duo.set side party')

def Level (history : Side → List Pair) : Prop := ∀ side, history side = history side.peer

/-- `side` has started a chain that the other one has not seen. -/
def Ahead (history : Side → List Pair) (side : Side) : Prop :=
  owner (history side) = side ∧ ∃ pair, history side = pair :: history side.peer

variable {maxChains maxSkipped : Nat} {duo duo' : Duo Pair}

@[simp] theorem set_party_self (side : Side) (party : Party Pair) : (duo.set side party).party side = party :=
  if_pos rfl

theorem set_party_of_ne {side other : Side} (party : Party Pair) (different : other ≠ side) :
    (duo.set side party).party other = duo.party other := if_neg different

@[simp] theorem set_party_peer (side : Side) (party : Party Pair) :
    (duo.set side party).party side.peer = duo.party side.peer := set_party_of_ne party (Side.peer_ne side)

@[simp] theorem set_sent (side : Side) (party : Party Pair) : (duo.set side party).sent = duo.sent := rfl

theorem set_history_same {side : Side} {party : Party Pair} (same : party.history = duo.history side) :
    (duo.set side party).history = duo.history := by
  funext other
  by_cases h : other = side
  · subst h
    rw [history, set_party_self, same]
  · rw [history, set_party_of_ne _ h, history]

theorem history_suffix_set {side : Side} {party : Party Pair} (grown : duo.history side <:+ party.history)
    (other : Side) : duo.history other <:+ (duo.set side party).history other := by
  by_cases h : other = side
  · subst h
    rw [history, history, set_party_self]
    exact grown
  · rw [history, history, set_party_of_ne _ h]

theorem level_of {history : Side → List Pair} (side : Side) (same : history side = history side.peer) :
    Level history := by
  intro other
  by_cases h : other = side
  · rw [h, same]
  · rw [Side.eq_peer_of_ne h, Side.peer_peer, same]

theorem owner_eq_of_peer {chain : List Pair} {side : Side} (h : (owner chain).peer = side.peer) :
    owner chain = side := by
  rw [← Side.peer_peer (owner chain), h, Side.peer_peer]

variable [DecidableEq Pair]

variable (maxSkipped) in
structure Ok (duo : Duo Pair) : Prop where
  party : ∀ side, (duo.party side).Ok maxSkipped side
  agree : Level duo.history ∨ ∃ side, Ahead duo.history side
  sent : ∀ place ∈ duo.sent, place.chain ≠ [] ∧ place.chain <:+ duo.history (owner place.chain) ∧
    (place.chain = duo.history (owner place.chain) →
      place.position < (duo.party (owner place.chain)).sending)

theorem start_ok (pair : Pair) : (start pair).Ok maxSkipped where
  party side := by
    cases side with
    | alice => refine ⟨?_, ?_, ?_, ?_, ?_, ?_, ?_, ?_, ?_, ?_, ?_⟩ <;> simp [start, owner, Side.peer]
    | bob => refine ⟨?_, ?_, ?_, ?_, ?_, ?_, ?_, ?_, ?_, ?_, ?_⟩ <;> simp [start, owner, Side.peer]
  agree := Or.inl fun side => by cases side <;> rfl
  sent place mem := by simp [start] at mem

/-- Every chain of the exchange ends one longest history. -/
theorem Ok.common (ok : duo.Ok maxSkipped) : ∃ whole, ∀ side, duo.history side <:+ whole := by
  rcases ok.agree with level | ⟨leader, -, pair, ahead⟩
  · refine ⟨duo.history .alice, ?_⟩
    intro side
    cases side with
    | alice => exact List.suffix_rfl
    | bob => exact level .bob ▸ List.suffix_rfl
  · refine ⟨duo.history leader, ?_⟩
    intro side
    by_cases same : side = leader
    · rw [same]
    · rw [Side.eq_peer_of_ne same, ahead]
      exact List.suffix_cons _ _

/-- A party that is not to send has seen all there is. -/
theorem Ok.level_of_turn (ok : duo.Ok maxSkipped) {side : Side} (turn : owner (duo.history side) ≠ side) :
    Level duo.history := by
  rcases ok.agree with level | ⟨leader, mine, pair, ahead⟩
  · exact level
  · exfalso
    by_cases same : side = leader
    · subst same
      exact turn mine
    · obtain rfl := Side.eq_peer_of_ne same
      rw [ahead, owner_cons] at mine
      exact turn (owner_eq_of_peer (by rw [mine, Side.peer_peer]))

/-- A chain of the other side that was not seen yet is the one the other side has just started. -/
theorem Ok.unseen (ok : duo.Ok maxSkipped) {side : Side} {chain : List Pair}
    (theirs : chain <:+ duo.history side.peer) (unseen : ¬ chain <:+ duo.history side) :
    chain = duo.history side.peer ∧ chain.tail = duo.history side ∧ owner (duo.history side) = side := by
  rcases ok.agree with level | ⟨leader, mine, pair, ahead⟩
  · exact absurd (level side ▸ theirs) unseen
  · by_cases same : leader = side
    · subst same
      rw [ahead] at unseen
      exact absurd (theirs.trans (List.suffix_cons _ _)) unseen
    · obtain rfl := Side.eq_peer_of_ne same
      rw [Side.peer_peer] at ahead
      rw [ahead, List.suffix_cons_iff] at theirs
      have latest := theirs.resolve_right unseen
      rw [ahead, owner_cons] at mine
      exact ⟨latest.trans ahead.symm, by rw [latest, List.tail_cons], owner_eq_of_peer mine⟩

/-- A party knows no chain of the other side that the other side does not know. -/
theorem Ok.theirs (ok : duo.Ok maxSkipped) {side : Side} {chain : List Pair} (known : chain <:+ duo.history side)
    (theirs : owner chain = side.peer) : chain <:+ duo.history side.peer := by
  rcases ok.agree with level | ⟨leader, mine, pair, ahead⟩
  · rw [← level side]
    exact known
  · by_cases same : leader = side
    · subst same
      rw [ahead, List.suffix_cons_iff] at known
      rcases known with latest | older
      · rw [latest, ← ahead, mine] at theirs
        exact absurd theirs.symm (Side.peer_ne leader)
      · exact older
    · obtain rfl := Side.eq_peer_of_ne same
      rw [Side.peer_peer] at ahead
      rw [ahead]
      exact known.trans (List.suffix_cons _ _)

theorem Ok.sends_new (ok : duo.Ok maxSkipped) {side : Side} {place : Place Pair} {party' : Party Pair}
    (sends : Sends side (duo.party side) place party') : place ∉ duo.sent := by
  intro mem
  obtain ⟨-, chain, position⟩ := ok.sent place mem
  obtain ⟨whole, mine, -⟩ := sends.owner
  rw [whole, mine] at chain position
  cases sends with
  | onChain turn => exact Nat.lt_irrefl _ (position rfl)
  | newChain pair turn =>
    have := chain.length_le
    simp only [history, List.length_cons] at this
    omega

theorem Ok.party_set (ok : duo.Ok maxSkipped) {side : Side} {party' : Party Pair} (next : party'.Ok maxSkipped side)
    (other : Side) : ((duo.set side party').party other).Ok maxSkipped other := by
  by_cases same : other = side
  · subst same
    rw [set_party_self]
    exact next
  · rw [set_party_of_ne _ same]
    exact ok.party other

/-- A place that was sent to is still one, when the party of its own chain is further than it. -/
theorem Ok.sent_set (ok : duo.Ok maxSkipped) {side : Side} {party' : Party Pair}
    (grown : duo.history side <:+ party'.history) {p : Place Pair} (old : p ∈ duo.sent)
    (further : owner p.chain = side → p.chain = party'.history → p.position < party'.sending) :
    p.chain ≠ [] ∧ p.chain <:+ (duo.set side party').history (owner p.chain) ∧
      (p.chain = (duo.set side party').history (owner p.chain) →
        p.position < ((duo.set side party').party (owner p.chain)).sending) := by
  obtain ⟨started, chain, position⟩ := ok.sent p old
  refine ⟨started, chain.trans (history_suffix_set grown _), ?_⟩
  by_cases same : owner p.chain = side
  · simp only [history, same, set_party_self]
    exact further same
  · simp only [history, set_party_of_ne _ same]
    exact position

theorem Ok.send (ok : duo.Ok maxSkipped) {side : Side} {place : Place Pair} {party' : Party Pair}
    (sends : Sends side (duo.party side) place party') :
    Ok maxSkipped { duo.set side party' with sent := place :: duo.sent } := by
  obtain ⟨grown, -⟩ := sends.frame
  obtain ⟨whole, mine, sending⟩ := sends.owner
  refine ⟨ok.party_set (sends.ok (ok.party side)), ?_, ?_⟩
  · cases sends with
    | onChain turn =>
      show Level (duo.set side _).history ∨ ∃ other, Ahead (duo.set side _).history other
      rw [set_history_same]
      · exact ok.agree
      · rfl
    | newChain pair turn =>
      refine Or.inr ⟨side, ?_, pair, ?_⟩
      · simp only [history, set_party_self]
        exact mine
      · simp only [history, set_party_self, set_party_peer]
        rw [show (duo.party side).history = _ from ok.level_of_turn turn side, history]
  · intro p mem
    rcases List.mem_cons.mp mem with rfl | old
    · have started : party'.history ≠ [] := (sends.ok (ok.party side)).started
      rw [whole, mine]
      refine ⟨started, ?_, ?_⟩ <;> simp only [history, set_party_self]
      · exact List.suffix_rfl
      · intro _
        omega
    · obtain ⟨-, chain, position⟩ := ok.sent p old
      refine ok.sent_set grown old ?_
      intro same latest
      simp only [history, same] at chain position
      cases sends with
      | onChain turn =>
        have := position latest
        simp only
        omega
      | newChain pair turn =>
        have := chain.length_le
        rw [latest] at this
        simp only [List.length_cons] at this
        omega

theorem Ok.receive (ok : duo.Ok maxSkipped) (room : 0 < maxChains) {side : Side} {place : Place Pair}
    {party' : Party Pair} (mem : place ∈ duo.sent)
    (receives : Receives maxChains maxSkipped side (duo.party side) place party') :
    (duo.set side party').Ok maxSkipped := by
  refine ⟨ok.party_set (receives.ok (ok.party side) room), ?_, ?_⟩
  · rcases receives.history with same | ⟨follows, turn, latest⟩
    · rw [set_history_same]
      · exact ok.agree
      · exact same
    · -- the other side has just started the chain, so both are level again
      obtain ⟨started, chain, -⟩ := ok.sent place mem
      obtain ⟨pair, rest, whole⟩ := List.exists_cons_of_ne_nil started
      rw [whole, List.tail_cons] at follows
      have unseen : ¬ place.chain <:+ duo.history side := by
        intro seen
        have := seen.length_le
        simp only [history, whole, follows, List.length_cons] at this
        omega
      have theirs : owner place.chain = side.peer := by rw [whole, follows, owner_cons, turn]
      rw [theirs] at chain
      refine Or.inl (level_of side ?_)
      simp only [history, set_party_self, set_party_peer]
      rw [latest, (ok.unseen chain unseen).1, history]
  · intro p old
    obtain ⟨-, -, position⟩ := ok.sent p old
    refine ok.sent_set receives.grows old ?_
    intro same latest
    simp only [history, same] at position
    rw [receives.sending]
    apply position
    -- a chain of our own is no chain that we have just received
    rcases receives.history with kept | ⟨follows, turn, received⟩
    · rw [latest, kept]
    · rw [received] at latest
      rw [latest] at same
      obtain ⟨started', -, -⟩ := ok.sent place mem
      obtain ⟨pair, rest, whole⟩ := List.exists_cons_of_ne_nil started'
      rw [whole, List.tail_cons] at follows
      rw [whole, follows, owner_cons, turn] at same
      exact absurd same (Side.peer_ne side)

theorem Step.ok (room : 0 < maxChains) (ok : duo.Ok maxSkipped) (step : duo.Step maxChains maxSkipped duo') :
    duo'.Ok maxSkipped := by
  cases step with
  | send sends => exact ok.send sends
  | receive mem receives => exact ok.receive room mem receives

end Duo

end Exchange

end RubyOlm
