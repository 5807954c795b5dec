import Mathlib.Data.List.Nodup
import Mathlib.Data.List.Infix
import Mathlib.Logic.Function.Basic

/-!
# Exchanges over alternating chains

Two parties send over chains of places. A party whose turn it is sends on its own chain; the other one
starts a new chain, and takes the turn, when it sends. A chain is known by the pairs it was started with
and all those before it, newest first. A receiver keeps a bounded number of the other side's chains with
the next place on each, and a bounded number of the places it has passed over, and takes each place at
most once, in any order.
-/

namespace RubyOlm

inductive Side where
  | alice
  | bob
  deriving DecidableEq

def Side.peer : Side → Side
  | alice => bob
  | bob => alice

@[simp] theorem Side.peer_peer (side : Side) : side.peer.peer = side := by cases side <;> rfl

@[simp] theorem Side.peer_ne (side : Side) : side.peer ≠ side := by cases side <;> simp [peer]

theorem Side.eq_peer_of_ne {side other : Side} (different : other ≠ side) : other = side.peer := by
  cases side <;> cases other <;> simp_all [peer]

namespace Exchange

variable {Pair : Type}

/-- Who sends on a chain; the first one is alice's. -/
def owner : (chain : List Pair) → Side
  | [] => .bob
  | _ :: before => (owner before).peer

@[simp] theorem owner_cons (pair : Pair) (before : List Pair) : owner (pair :: before) = (owner before).peer := rfl

structure Place (Pair : Type) where
  chain : List Pair
  position : Nat
  deriving DecidableEq

/-- One party. `receiving` holds the next place on each chain it keeps, newest chain first, and
`opened` and `passed` are its history: the places it has taken and those it has ever passed over. -/
structure Party (Pair : Type) where
  history : List Pair
  sending : Nat
  receiving : List (Place Pair)
  skipped : List (Place Pair)
  opened : List (Place Pair)
  passed : List (Place Pair)

/-- The places of a chain from `first` on and before `last`, last one first. -/
def between (chain : List Pair) (first last : Nat) : List (Place Pair) :=
  (List.range' first (last - first)).reverse.map (Place.mk chain)

theorem mem_between {chain : List Pair} {first last : Nat} {place : Place Pair} :
    place ∈ between chain first last ↔
      place.chain = chain ∧ first ≤ place.position ∧ place.position < last := by
  obtain ⟨c, n⟩ := place
  simp only [between, List.mem_map, List.mem_reverse, List.mem_range'_1, Place.mk.injEq]
  constructor
  · rintro ⟨m, ⟨low, high⟩, rfl, rfl⟩
    exact ⟨rfl, low, by omega⟩
  · rintro ⟨rfl, low, high⟩
    exact ⟨n, ⟨low, by omega⟩, rfl, rfl⟩

theorem nodup_between (chain : List Pair) (first last : Nat) : (between chain first last).Nodup := by
  refine List.Nodup.map ?_ (List.nodup_reverse.mpr (List.nodup_range'))
  intro m n same
  exact (Place.mk.inj same).2

/-! ### Steps -/

inductive Sends (side : Side) (party : Party Pair) : Place Pair → Party Pair → Prop
  | onChain (turn : owner party.history = side) :
      Sends side party ⟨party.history, party.sending⟩ { party with sending := party.sending + 1 }
  | newChain (pair : Pair) (turn : owner party.history ≠ side) :
      Sends side party ⟨pair :: party.history, 0⟩
        { party with history := pair :: party.history, sending := 1 }

variable (maxChains maxSkipped : Nat)

/-- The chain of `place` is moved from `next` to just after it. -/
inductive Moves (side : Side) (party : Party Pair) (place : Place Pair) :
    (next : Nat) → (history : List Pair) → (receiving : List (Place Pair)) → Prop
  | newChain (follows : place.chain.tail = party.history) (turn : owner party.history = side)
      (started : place.chain ≠ []) :
      Moves side party place 0 place.chain
        ((⟨place.chain, place.position + 1⟩ :: party.receiving).take maxChains)
  | onChain {index next : Nat} (known : party.receiving[index]? = some ⟨place.chain, next⟩)
      (ahead : next ≤ place.position) :
      Moves side party place next party.history
        (party.receiving.set index ⟨place.chain, place.position + 1⟩)

/-- `party` takes what was sent at `place`: on a chain, passing over the places before it, or from
the places it has passed over. -/
inductive Receives (side : Side) (party : Party Pair) (place : Place Pair) : Party Pair → Prop
  | move {next : Nat} {history : List Pair} {receiving : List (Place Pair)}
      (moves : Moves maxChains side party place next history receiving) :
      Receives side party place
        { party with
          history, receiving
          skipped := (between place.chain next place.position ++ party.skipped).take maxSkipped
          opened := place :: party.opened
          passed := between place.chain next place.position ++ party.passed }
  | fetch {index : Nat} (found : party.skipped[index]? = some place) :
      Receives side party place
        { party with
          skipped := party.skipped.eraseIdx index
          opened := place :: party.opened }

/-- `party` is past `place`, on a chain of the other side. -/
structure Behind (side : Side) (party : Party Pair) (place : Place Pair) : Prop where
  started : place.chain ≠ []
  chain : place.chain <:+ party.history
  owner : owner place.chain = side.peer
  position : ∀ next ∈ party.receiving, next.chain = place.chain → place.position < next.position

/-! ### What the steps do -/

variable {maxChains maxSkipped} {side : Side} {party party' : Party Pair} {place other : Place Pair}

theorem eq_of_length {chains : List (Place Pair)}
    (distinct : chains.Pairwise fun newer older => older.chain.length < newer.chain.length) {i j : Nat}
    {a b : Place Pair} (ha : chains[i]? = some a) (hb : chains[j]? = some b)
    (same : a.chain = b.chain) : i = j := by
  obtain ⟨hi, rfl⟩ := List.getElem?_eq_some_iff.mp ha
  obtain ⟨hj, rfl⟩ := List.getElem?_eq_some_iff.mp hb
  rw [List.pairwise_iff_getElem] at distinct
  rcases Nat.lt_trichotomy i j with before | rfl | after
  · have := distinct i j hi hj before
    rw [same] at this
    omega
  · rfl
  · have := distinct j i hj hi after
    rw [same] at this
    omega

theorem Behind.of_grown (behind : Behind side party other) (history : party.history <:+ party'.history)
    (receiving : party'.receiving = party.receiving) : Behind side party' other :=
  ⟨behind.started, behind.chain.trans history, behind.owner, by rw [receiving]; exact behind.position⟩

theorem Sends.frame (sends : Sends side party place party') :
    party.history <:+ party'.history ∧ party'.receiving = party.receiving ∧ party'.skipped = party.skipped ∧
      party'.opened = party.opened ∧ party'.passed = party.passed := by
  cases sends with
  | onChain turn => exact ⟨List.suffix_rfl, rfl, rfl, rfl, rfl⟩
  | newChain pair turn => exact ⟨List.suffix_cons _ _, rfl, rfl, rfl, rfl⟩

/-- After sending it is the sender's turn, on the chain it sent on. -/
theorem Sends.owner (sends : Sends side party place party') :
    place.chain = party'.history ∧ Exchange.owner party'.history = side ∧
      party'.sending = place.position + 1 := by
  cases sends with
  | onChain turn => exact ⟨rfl, turn, rfl⟩
  | newChain pair turn =>
    refine ⟨rfl, ?_, rfl⟩
    rw [owner_cons, Side.eq_peer_of_ne turn, Side.peer_peer]

section Moves

variable {next : Nat} {history : List Pair} {receiving : List (Place Pair)}

theorem Moves.history_grows (moves : Moves maxChains side party place next history receiving) :
    party.history <:+ history := by
  cases moves with
  | newChain follows turn started => rw [← follows]; exact List.tail_suffix _
  | onChain known ahead => exact List.suffix_rfl

theorem Moves.ahead (moves : Moves maxChains side party place next history receiving) : next ≤ place.position := by
  cases moves with
  | newChain follows turn started => exact Nat.zero_le _
  | onChain known ahead => exact ahead

theorem Moves.fresh (moves : Moves maxChains side party place next history receiving) (chain : other.chain = place.chain)
    (position : next ≤ other.position) : ¬ Behind side party other := by
  intro behind
  cases moves with
  | newChain follows turn started =>
    have shorter := behind.chain.length_le
    obtain ⟨pair, rest, whole⟩ := List.exists_cons_of_ne_nil started
    rw [chain, ← follows, whole, List.tail_cons, List.length_cons] at shorter
    omega
  | onChain known ahead =>
    have := behind.position _ (List.mem_of_getElem? known) chain.symm
    simp only at this
    omega

end Moves

theorem Receives.history (receives : Receives maxChains maxSkipped side party place party') :
    party'.history = party.history ∨
      place.chain.tail = party.history ∧ Exchange.owner party.history = side ∧ party'.history = place.chain := by
  cases receives with
  | move moves =>
    cases moves with
    | newChain follows turn started => exact Or.inr ⟨follows, turn, rfl⟩
    | onChain known ahead => exact Or.inl rfl
  | fetch found => exact Or.inl rfl

theorem Receives.sending (receives : Receives maxChains maxSkipped side party place party') :
    party'.sending = party.sending := by
  cases receives with
  | move moves => rfl
  | fetch found => rfl

theorem Receives.grows (receives : Receives maxChains maxSkipped side party place party') :
    party.history <:+ party'.history := by
  cases receives with
  | move moves => exact moves.history_grows
  | fetch found => exact List.suffix_rfl

/-! ### What a party knows -/

variable [DecidableEq Pair]

variable (maxSkipped) in
structure Party.Ok (side : Side) (party : Party Pair) : Prop where
  started : party.history ≠ []
  known : ∀ next ∈ party.receiving,
    next.chain ≠ [] ∧ next.chain <:+ party.history ∧ owner next.chain = side.peer
  distinct : party.receiving.Pairwise fun newer older => older.chain.length < newer.chain.length
  current : owner party.history = side.peer → ∃ next, party.receiving[0]? = some ⟨party.history, next⟩
  skipped_behind : ∀ place ∈ party.skipped, Behind side party place
  opened_behind : ∀ place ∈ party.opened, Behind side party place
  passed_behind : ∀ place ∈ party.passed, Behind side party place
  skipped_nodup : party.skipped.Nodup
  opened_gone : ∀ place ∈ party.opened, place ∉ party.skipped
  /-- The last places passed over are still there, but for those taken since. -/
  remembered : ((party.passed.take maxSkipped).filter fun place => place ∉ party.opened) <+: party.skipped
  accounted : ∀ next ∈ party.receiving, ∀ n < next.position,
    ⟨next.chain, n⟩ ∈ party.opened ∨ ⟨next.chain, n⟩ ∈ party.passed

/-! ### Sending -/

theorem Sends.ok (ok : party.Ok maxSkipped side) (sends : Sends side party place party') :
    party'.Ok maxSkipped side := by
  obtain ⟨history, receiving, skipped, opened, passed⟩ := sends.frame
  obtain ⟨-, turn, -⟩ := sends.owner
  exact
    { started := fun none => ok.started (List.suffix_nil.mp (none ▸ history))
      known := by
        rw [receiving]
        intro next mem
        obtain ⟨started, chain, owned⟩ := ok.known next mem
        exact ⟨started, chain.trans history, owned⟩
      distinct := by rw [receiving]; exact ok.distinct
      current := fun theirs => absurd (theirs.symm.trans turn) (Side.peer_ne side)
      skipped_behind := by
        rw [skipped]
        exact fun place mem => (ok.skipped_behind place mem).of_grown history receiving
      opened_behind := by
        rw [opened]
        exact fun place mem => (ok.opened_behind place mem).of_grown history receiving
      passed_behind := by
        rw [passed]
        exact fun place mem => (ok.passed_behind place mem).of_grown history receiving
      skipped_nodup := by rw [skipped]; exact ok.skipped_nodup
      opened_gone := by rw [opened, skipped]; exact ok.opened_gone
      remembered := by rw [opened, skipped, passed]; exact ok.remembered
      accounted := by rw [receiving, opened, passed]; exact ok.accounted }

/-! ### Moving a chain -/

section Moves

variable {next : Nat} {history : List Pair} {receiving : List (Place Pair)}

theorem Moves.mem (ok : party.Ok maxSkipped side) (moves : Moves maxChains side party place next history receiving)
    {chain : Place Pair} (mem : chain ∈ receiving) :
    chain = ⟨place.chain, place.position + 1⟩ ∨ chain ∈ party.receiving ∧ chain.chain ≠ place.chain := by
  cases moves with
  | newChain follows turn started =>
    rcases List.mem_cons.mp (List.mem_of_mem_take mem) with new | old
    · exact Or.inl new
    · refine Or.inr ⟨old, ?_⟩
      intro same
      have shorter := (ok.known chain old).2.1.length_le
      obtain ⟨pair, rest, whole⟩ := List.exists_cons_of_ne_nil started
      rw [same, ← follows, whole, List.tail_cons, List.length_cons] at shorter
      omega
  | @onChain index next known ahead =>
    obtain ⟨i, read⟩ := List.mem_iff_getElem?.mp mem
    rw [List.getElem?_set] at read
    split at read
    · split at read
      · exact Or.inl (Option.some.inj read).symm
      · cases read
    · rename_i different
      refine Or.inr ⟨List.mem_of_getElem? read, ?_⟩
      intro same
      exact different (eq_of_length ok.distinct known read same.symm)

theorem Moves.behind (ok : party.Ok maxSkipped side)
    (moves : Moves maxChains side party place next history receiving)
    (behind : Behind side party other) (history_eq : party'.history = history)
    (receiving_eq : party'.receiving = receiving) : Behind side party' other := by
  refine ⟨behind.started, ?_, behind.owner, ?_⟩
  · rw [history_eq]
    exact behind.chain.trans moves.history_grows
  · rw [receiving_eq]
    intro chain mem same
    rcases moves.mem ok mem with rfl | ⟨old, different⟩
    · by_contra past
      have reached : place.position + 1 ≤ other.position := by simpa using past
      have ahead := moves.ahead
      exact moves.fresh same.symm (by omega) behind
    · exact behind.position chain old same

theorem Moves.passes (ok : party.Ok maxSkipped side)
    (moves : Moves maxChains side party place next history receiving) (chain : other.chain = place.chain)
    (position : other.position ≤ place.position) (history_eq : party'.history = history)
    (receiving_eq : party'.receiving = receiving) : Behind side party' other := by
  refine ⟨?_, ?_, ?_, ?_⟩
  · rw [chain]
    cases moves with
    | newChain follows turn started => exact started
    | onChain known ahead => exact (ok.known _ (List.mem_of_getElem? known)).1
  · rw [chain, history_eq]
    cases moves with
    | newChain follows turn started => exact List.suffix_rfl
    | onChain known ahead => exact (ok.known _ (List.mem_of_getElem? known)).2.1
  · rw [chain]
    cases moves with
    | newChain follows turn started =>
      obtain ⟨pair, rest, whole⟩ := List.exists_cons_of_ne_nil started
      rw [whole, owner_cons, ← turn, ← follows, whole, List.tail_cons]
    | onChain known ahead => exact (ok.known _ (List.mem_of_getElem? known)).2.2
  · rw [receiving_eq]
    intro moved mem same
    rcases moves.mem ok mem with rfl | ⟨-, different⟩
    · simp only
      omega
    · exact absurd (same.trans chain) different

theorem Moves.receiving_ok (ok : party.Ok maxSkipped side) (room : 0 < maxChains)
    (moves : Moves maxChains side party place next history receiving) :
    (∀ next ∈ receiving, next.chain ≠ [] ∧ next.chain <:+ history ∧ Exchange.owner next.chain = side.peer) ∧
      (receiving.Pairwise fun newer older => older.chain.length < newer.chain.length) ∧
      (Exchange.owner history = side.peer → ∃ next, receiving[0]? = some ⟨history, next⟩) := by
  refine ⟨?_, ?_, ?_⟩
  · intro chain mem
    have moved : Behind side { party with history, receiving } place := moves.passes ok rfl (le_refl _) rfl rfl
    rcases moves.mem ok mem with rfl | ⟨old, -⟩
    · exact ⟨moved.started, moved.chain, moved.owner⟩
    · obtain ⟨started, chain, owned⟩ := ok.known _ old
      exact ⟨started, chain.trans moves.history_grows, owned⟩
  · cases moves with
    | newChain follows turn started =>
      refine List.Pairwise.sublist (List.take_sublist _ _) (List.pairwise_cons.mpr ⟨?_, ok.distinct⟩)
      intro older mem
      have shorter := (ok.known older mem).2.1.length_le
      obtain ⟨pair, rest, whole⟩ := List.exists_cons_of_ne_nil started
      rw [whole, List.tail_cons] at follows
      rw [whole, follows, List.length_cons]
      omega
    | @onChain index next known ahead =>
      have chains : (party.receiving.set index ⟨place.chain, place.position + 1⟩).map Place.chain =
          party.receiving.map Place.chain := by
        obtain ⟨inside, read⟩ := List.getElem?_eq_some_iff.mp known
        rw [List.map_set, ← congrArg Place.chain read, ← List.getElem_map Place.chain (h := by simpa using inside)]
        exact List.set_getElem_self _
      have distinct := ok.distinct
      rw [← List.pairwise_map (f := Place.chain) (R := fun newer older => older.length < newer.length)] at distinct ⊢
      rw [chains]
      exact distinct
  · cases moves with
    | newChain follows turn started =>
      intro _
      refine ⟨place.position + 1, ?_⟩
      rw [List.getElem?_take_of_lt room]
      rfl
    | @onChain index next known ahead =>
      intro theirs
      obtain ⟨latest, read⟩ := ok.current theirs
      by_cases first : index = 0
      · subst first
        have same : place.chain = party.history := by
          rw [known] at read
          exact congrArg Place.chain (Option.some.inj read)
        refine ⟨place.position + 1, ?_⟩
        rw [List.getElem?_set_self (List.getElem?_eq_some_iff.mp known).1, same]
      · exact ⟨latest, by rw [List.getElem?_set_ne (by omega), read]⟩

theorem Moves.accounted (ok : party.Ok maxSkipped side)
    (moves : Moves maxChains side party place next history receiving) {chain : Place Pair} (mem : chain ∈ receiving)
    {n : Nat} (before : n < chain.position) :
    ⟨chain.chain, n⟩ ∈ place :: party.opened ∨
      ⟨chain.chain, n⟩ ∈ between place.chain next place.position ++ party.passed := by
  rcases moves.mem ok mem with rfl | ⟨old, -⟩
  · simp only at before ⊢
    rcases Nat.lt_trichotomy n place.position with inside | rfl | after
    · rcases Nat.lt_or_ge n next with low | high
      · cases moves with
        | newChain _ _ _ => omega
        | onChain read ahead =>
          rcases ok.accounted _ (List.mem_of_getElem? read) n low with opened | passed
          · exact Or.inl (List.mem_cons_of_mem _ opened)
          · exact Or.inr (List.mem_append_right _ passed)
      · exact Or.inr (List.mem_append_left _ (mem_between.mpr ⟨rfl, high, inside⟩))
    · exact Or.inl List.mem_cons_self
    · omega
  · rcases ok.accounted chain old n before with opened | passed
    · exact Or.inl (List.mem_cons_of_mem _ opened)
    · exact Or.inr (List.mem_append_right _ passed)

end Moves

/-! ### Receiving -/

theorem remembered_move {passed skipped opened new : List (Place Pair)} {place : Place Pair}
    (remembered : ((passed.take maxSkipped).filter fun place => place ∉ opened) <+: skipped)
    (unopened : ∀ p ∈ new, p ∉ place :: opened) (unpassed : place ∉ passed) :
    (((new ++ passed).take maxSkipped).filter fun p => p ∉ place :: opened) <+:
      (new ++ skipped).take maxSkipped := by
  have keep (n : Nat) : ((new.take n).filter fun p => p ∉ place :: opened) = new.take n := by
    rw [List.filter_eq_self]
    intro p mem
    exact decide_eq_true (unopened p (List.mem_of_mem_take mem))
  have drop (n : Nat) : ((passed.take n).filter fun p => p ∉ place :: opened) =
      (passed.take n).filter fun p => p ∉ opened := by
    apply List.filter_congr
    intro p mem
    have different : p ≠ place := by
      rintro rfl
      exact unpassed (List.mem_of_mem_take mem)
    simp [different]
  rw [List.prefix_take_iff]
  refine ⟨?_, ?_⟩
  · rw [List.take_append, List.filter_append, keep, drop]
    rcases Nat.lt_or_ge maxSkipped new.length with full | room
    · rw [Nat.sub_eq_zero_of_le (Nat.le_of_lt full), List.take_zero, List.filter_nil, List.append_nil]
      exact (List.take_prefix _ _).trans (List.prefix_append _ _)
    · rw [List.take_of_length_le room, List.prefix_append_right_inj]
      have shorter : passed.take (maxSkipped - new.length) <+: passed.take maxSkipped :=
        List.take_prefix_take_left (Nat.sub_le _ _)
      exact (shorter.filter _).trans remembered
  · exact (List.length_filter_le _ _).trans (List.length_take_le _ _)

theorem Party.Ok.move (ok : party.Ok maxSkipped side) (room : 0 < maxChains) {next : Nat} {history : List Pair}
    {receiving : List (Place Pair)}
    (moves : Moves maxChains side party place next history receiving) :
    Party.Ok maxSkipped side
      { party with
        history, receiving
        skipped := (between place.chain next place.position ++ party.skipped).take maxSkipped
        opened := place :: party.opened
        passed := between place.chain next place.position ++ party.passed } := by
  obtain ⟨known, distinct, current⟩ := moves.receiving_ok ok room
  have fresh (p : Place Pair) (mem : p ∈ between place.chain next place.position) : ¬ Behind side party p := by
    obtain ⟨chain, low, -⟩ := mem_between.mp mem
    exact moves.fresh chain low
  have place_fresh : ¬ Behind side party place := moves.fresh rfl moves.ahead
  have unopened (p : Place Pair) (mem : p ∈ between place.chain next place.position) :
      p ∉ place :: party.opened := by
    rw [List.mem_cons, not_or]
    refine ⟨?_, fun opened => fresh p mem (ok.opened_behind p opened)⟩
    rintro rfl
    obtain ⟨-, -, high⟩ := mem_between.mp mem
    omega
  exact
    { started := fun none => ok.started (List.suffix_nil.mp (none ▸ moves.history_grows))
      known, distinct, current
      skipped_behind := by
        intro p mem
        rcases List.mem_append.mp (List.mem_of_mem_take mem) with new | old
        · obtain ⟨chain, -, high⟩ := mem_between.mp new
          exact moves.passes ok chain (Nat.le_of_lt high) rfl rfl
        · exact moves.behind ok (ok.skipped_behind p old) rfl rfl
      opened_behind := by
        intro p mem
        rcases List.mem_cons.mp mem with rfl | old
        · exact moves.passes ok rfl (le_refl _) rfl rfl
        · exact moves.behind ok (ok.opened_behind p old) rfl rfl
      passed_behind := by
        intro p mem
        rcases List.mem_append.mp mem with new | old
        · obtain ⟨chain, -, high⟩ := mem_between.mp new
          exact moves.passes ok chain (Nat.le_of_lt high) rfl rfl
        · exact moves.behind ok (ok.passed_behind p old) rfl rfl
      skipped_nodup := by
        refine List.Nodup.sublist (List.take_sublist _ _) (List.nodup_append'.mpr
          ⟨nodup_between _ _ _, ok.skipped_nodup, ?_⟩)
        intro p new old
        exact fresh p new (ok.skipped_behind p old)
      opened_gone := by
        intro p opened mem
        rcases List.mem_append.mp (List.mem_of_mem_take mem) with new | old
        · exact unopened p new opened
        · rcases List.mem_cons.mp opened with rfl | before
          · exact place_fresh (ok.skipped_behind p old)
          · exact ok.opened_gone p before old
      remembered := remembered_move ok.remembered unopened
        fun passed => place_fresh (ok.passed_behind place passed)
      accounted := fun chain mem n before => moves.accounted ok mem before }

theorem Party.Ok.fetch (ok : party.Ok maxSkipped side) {index : Nat} (found : party.skipped[index]? = some place) :
    Party.Ok maxSkipped side
      { party with skipped := party.skipped.eraseIdx index, opened := place :: party.opened } := by
  have place_skipped : place ∈ party.skipped := List.mem_of_getElem? found
  obtain ⟨inside, read⟩ := List.getElem?_eq_some_iff.mp found
  have erased : party.skipped.eraseIdx index = party.skipped.filter fun p => p ≠ place := by
    rw [← List.Nodup.erase_getElem ok.skipped_nodup index inside, read,
      List.Nodup.erase_eq_filter ok.skipped_nodup]
    apply List.filter_congr
    intro p _
    rw [bne, decide_not, Bool.beq_eq_decide_eq]
  have behind {p : Place Pair} (before : Behind side party p) :
      Behind side
        { party with skipped := party.skipped.eraseIdx index, opened := place :: party.opened } p :=
    before.of_grown List.suffix_rfl rfl
  exact
    { ok with
      skipped_behind := fun p mem => behind (ok.skipped_behind p (List.mem_of_mem_eraseIdx mem))
      opened_behind := by
        intro p mem
        rcases List.mem_cons.mp mem with rfl | old
        · exact behind (ok.skipped_behind p place_skipped)
        · exact behind (ok.opened_behind p old)
      passed_behind := fun p mem => behind (ok.passed_behind p mem)
      skipped_nodup := ok.skipped_nodup.eraseIdx index
      opened_gone := by
        intro p opened mem
        simp only [erased, List.mem_filter, decide_eq_true_eq] at mem
        rcases List.mem_cons.mp opened with rfl | before
        · exact mem.2 rfl
        · exact ok.opened_gone p before mem.1
      remembered := by
        have kept := ok.remembered.filter fun p => decide (p ≠ place)
        rw [List.filter_filter, ← erased] at kept
        have same : ((party.passed.take maxSkipped).filter fun p => p ∉ place :: party.opened) =
            (party.passed.take maxSkipped).filter fun p => p ≠ place && p ∉ party.opened := by
          apply List.filter_congr
          intro p _
          simp
        rw [same]
        exact kept
      accounted := by
        intro chain mem n before
        rcases ok.accounted chain mem n before with opened | passed
        · exact Or.inl (List.mem_cons_of_mem _ opened)
        · exact Or.inr passed }

theorem Receives.ok (ok : party.Ok maxSkipped side) (room : 0 < maxChains)
    (receives : Receives maxChains maxSkipped side party place party') : party'.Ok maxSkipped side := by
  cases receives with
  | move moves => exact ok.move room moves
  | fetch found => exact ok.fetch found

theorem Receives.receiving_mem (ok : party.Ok maxSkipped side)
    (receives : Receives maxChains maxSkipped side party place party') {next : Place Pair}
    (mem : next ∈ party'.receiving) :
    next = ⟨place.chain, place.position + 1⟩ ∨ next ∈ party.receiving := by
  cases receives with
  | move moves => exact (moves.mem ok mem).imp_right And.left
  | fetch found => exact Or.inr mem

theorem Receives.unopened (ok : party.Ok maxSkipped side)
    (receives : Receives maxChains maxSkipped side party place party') : place ∉ party.opened := by
  intro opened
  cases receives with
  | move moves => exact moves.fresh rfl moves.ahead (ok.opened_behind place opened)
  | fetch found => exact ok.opened_gone place opened (List.mem_of_getElem? found)


end Exchange

end RubyOlm
