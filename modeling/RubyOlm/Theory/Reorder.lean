import Mathlib.Data.List.Sort
import RubyOlm.Theory.Exchange

/-!
# Taking two places in either order

What a party keeps after it has taken a place is said by membership. As long as nothing is pushed out, the
places it is past after two steps do not depend on their order, and neither does anything else it keeps.
-/

namespace RubyOlm

namespace Exchange

variable {Pair : Type}

/-- Nothing that `party` keeps, or is given to keep, is pushed out on the way to `party'`. -/
structure Keeps (maxSkipped : Nat) (party party' : Party Pair) : Prop where
  chains : ∀ next ∈ party.receiving, ∃ next' ∈ party'.receiving, next'.chain = next.chain
  skipped : party'.passed.length + party.skipped.length ≤ maxSkipped + party.passed.length

variable {maxChains maxSkipped : Nat} {side : Side} {party party' : Party Pair} {place other : Place Pair}

theorem Behind.of_le (behind : Behind side party place) (chain : other.chain = place.chain)
    (position : other.position ≤ place.position) : Behind side party other := by
  refine ⟨chain ▸ behind.started, chain ▸ behind.chain, chain ▸ behind.owner, ?_⟩
  intro next mem same
  have := behind.position next mem (same.trans chain)
  omega

theorem Place.eq_iff {a b : Place Pair} : a = b ↔ a.chain = b.chain ∧ a.position = b.position := by
  obtain ⟨chain, position⟩ := a
  obtain ⟨chain', position'⟩ := b
  rw [Place.mk.injEq]

theorem mem_unique {chains : List (Place Pair)}
    (distinct : chains.Pairwise fun newer older => older.chain.length < newer.chain.length) {a b : Place Pair}
    (ha : a ∈ chains) (hb : b ∈ chains) (same : a.chain = b.chain) : a = b := by
  obtain ⟨i, readA⟩ := List.mem_iff_getElem?.mp ha
  obtain ⟨j, readB⟩ := List.mem_iff_getElem?.mp hb
  obtain rfl := eq_of_length distinct readA readB same
  exact Option.some.inj (readA.symm.trans readB)

/-- Chains in this order are known by which they are. -/
theorem chains_ext {chains chains' : List (Place Pair)}
    (distinct : chains.Pairwise fun newer older => older.chain.length < newer.chain.length)
    (distinct' : chains'.Pairwise fun newer older => older.chain.length < newer.chain.length)
    (same : ∀ next, next ∈ chains ↔ next ∈ chains') : chains = chains' := by
  have nodup {l : List (Place Pair)}
      (distinct : l.Pairwise fun newer older => older.chain.length < newer.chain.length) : l.Nodup := by
    refine List.Pairwise.imp ?_ distinct
    rintro newer older shorter rfl
    exact Nat.lt_irrefl _ shorter
  refine List.Perm.eq_of_pairwise ?_ distinct distinct'
    ((List.perm_ext_iff_of_nodup (nodup distinct) (nodup distinct')).mpr same)
  intro a b _ _ shorter longer
  exact absurd (Nat.lt_trans shorter longer) (Nat.lt_irrefl _)

theorem behind_iff_of_same (history : party'.history = party.history) (receiving : party'.receiving = party.receiving) :
    Behind side party' other ↔ Behind side party other :=
  ⟨fun behind => behind.of_grown (history ▸ List.suffix_rfl) receiving.symm,
    fun behind => behind.of_grown (history ▸ List.suffix_rfl) receiving⟩

theorem not_suffix_of_tail {chain history : List Pair} (follows : chain.tail = history) (started : chain ≠ []) :
    ¬ chain <:+ history := by
  intro suffix
  have shorter := suffix.length_le
  have := List.length_pos_iff.mpr started
  rw [← follows, List.length_tail] at shorter
  omega

/-! ### Moving -/

section Moves

variable {next : Nat} {history : List Pair} {receiving : List (Place Pair)}

theorem Moves.newest_mem (room : 0 < maxChains)
    (moves : Moves maxChains side party place next history receiving) :
    ⟨place.chain, place.position + 1⟩ ∈ receiving := by
  cases moves with
  | newChain follows turn started =>
    obtain ⟨slots, rfl⟩ : ∃ slots, maxChains = slots + 1 := ⟨maxChains - 1, by omega⟩
    rw [List.take_succ_cons]
    exact List.mem_cons_self
  | onChain known ahead => exact List.mem_set (List.getElem?_eq_some_iff.mp known).1 _

variable [DecidableEq Pair]

/-- The places before `next` are those that the party is past. -/
theorem Moves.behind_of_lt (ok : party.Ok maxSkipped side)
    (moves : Moves maxChains side party place next history receiving) (chain : other.chain = place.chain)
    (position : other.position < next) : Behind side party other := by
  cases moves with
  | newChain follows turn started => exact absurd position (Nat.not_lt_zero _)
  | onChain known ahead =>
    have mem := List.mem_of_getElem? known
    obtain ⟨started, suffix, owned⟩ := ok.known _ mem
    refine ⟨chain ▸ started, chain ▸ suffix, chain ▸ owned, ?_⟩
    intro next' mem' same
    obtain rfl := mem_unique ok.distinct mem mem' (chain.symm.trans same.symm)
    exact position

theorem Moves.mem_kept (ok : party.Ok maxSkipped side)
    (moves : Moves maxChains side party place next history receiving)
    (chains : ∀ next ∈ party.receiving, ∃ next' ∈ receiving, next'.chain = next.chain) {chain : Place Pair}
    (mem : chain ∈ party.receiving) (different : chain.chain ≠ place.chain) : chain ∈ receiving := by
  obtain ⟨kept, kept_mem, same⟩ := chains chain mem
  rcases moves.mem ok kept_mem with rfl | ⟨old, -⟩
  · exact absurd same.symm different
  · exact mem_unique ok.distinct mem old same.symm ▸ kept_mem

end Moves

/-! ### What is kept after a step -/

variable [DecidableEq Pair]

section Receives

variable (room : 0 < maxChains) (ok : party.Ok maxSkipped side)
  (receives : Receives maxChains maxSkipped side party place party') (keeps : Keeps maxSkipped party party')
include ok receives keeps

include room in
theorem Receives.mem_receiving {next : Place Pair} :
    next ∈ party'.receiving ↔ next ∈ party.receiving ∧ (next.chain = place.chain → Behind side party place) ∨
      next = ⟨place.chain, place.position + 1⟩ ∧ ¬ Behind side party place := by
  cases receives with
  | move moves =>
    have ahead : ¬ Behind side party place := moves.fresh rfl moves.ahead
    constructor
    · intro mem
      rcases moves.mem ok mem with rfl | ⟨old, different⟩
      · exact Or.inr ⟨rfl, ahead⟩
      · exact Or.inl ⟨old, fun same => absurd same different⟩
    · rintro (⟨old, different⟩ | ⟨rfl, -⟩)
      · exact moves.mem_kept ok keeps.chains old fun same => ahead (different same)
      · exact moves.newest_mem room
  | fetch found =>
    have behind := ok.skipped_behind place (List.mem_of_getElem? found)
    constructor
    · exact fun mem => Or.inl ⟨mem, fun _ => behind⟩
    · rintro (⟨mem, -⟩ | ⟨-, ahead⟩)
      · exact mem
      · exact absurd behind ahead

include room in
theorem Receives.behind_iff :
    Behind side party' other ↔
      Behind side party other ∨ other.chain = place.chain ∧ other.position ≤ place.position := by
  cases receives with
  | @move next history receiving moves =>
    constructor
    · intro behind
      by_cases same : other.chain = place.chain
      · have := behind.position _ (moves.newest_mem room) same.symm
        exact Or.inr ⟨same, Nat.le_of_lt_succ this⟩
      · refine Or.inl ⟨behind.started, ?_, behind.owner, ?_⟩
        · have chain := behind.chain
          cases moves with
          | newChain follows turn started =>
            obtain ⟨pair, rest, whole⟩ := List.exists_cons_of_ne_nil started
            rw [whole, List.tail_cons] at follows
            simp only [whole, follows] at chain same
            exact (List.suffix_cons_iff.mp chain).resolve_left same
          | onChain known ahead => exact chain
        · intro chain mem on
          exact behind.position chain (moves.mem_kept ok keeps.chains mem (on ▸ same)) on
    · rintro (behind | ⟨chain, position⟩)
      · exact moves.behind ok behind rfl rfl
      · exact moves.passes ok chain position rfl rfl
  | @fetch index found =>
    have same : Behind side
        { party with skipped := party.skipped.eraseIdx index, opened := place :: party.opened } other ↔
          Behind side party other := behind_iff_of_same rfl rfl
    rw [same]
    refine ⟨Or.inl, ?_⟩
    rintro (behind | ⟨chain, position⟩)
    · exact behind
    · exact (ok.skipped_behind place (List.mem_of_getElem? found)).of_le chain position

theorem Receives.mem_skipped :
    other ∈ party'.skipped ↔ other ≠ place ∧
      (other ∈ party.skipped ∨
        other.chain = place.chain ∧ other.position < place.position ∧ ¬ Behind side party other) := by
  cases receives with
  | @move next history receiving moves =>
    have fits := keeps.skipped
    simp only [List.length_append] at fits
    rw [List.take_of_length_le (by rw [List.length_append]; omega), List.mem_append, mem_between]
    have place_fresh : ¬ Behind side party place := moves.fresh rfl moves.ahead
    constructor
    · rintro (⟨chain, low, high⟩ | old)
      · exact ⟨fun same => absurd high (by rw [same]; exact Nat.lt_irrefl _),
          Or.inr ⟨chain, high, moves.fresh chain low⟩⟩
      · exact ⟨fun same => place_fresh (same ▸ ok.skipped_behind other old), Or.inl old⟩
    · rintro ⟨-, old | ⟨chain, high, fresh⟩⟩
      · exact Or.inr old
      · refine Or.inl ⟨chain, ?_, high⟩
        by_contra low
        exact fresh (moves.behind_of_lt ok chain (Nat.lt_of_not_le low))
  | @fetch index found =>
    obtain ⟨inside, read⟩ := List.getElem?_eq_some_iff.mp found
    have behind := ok.skipped_behind place (List.mem_of_getElem? found)
    rw [← List.Nodup.erase_getElem ok.skipped_nodup index inside, read, List.Nodup.mem_erase_iff ok.skipped_nodup]
    refine and_congr_right fun _ => ⟨Or.inl, ?_⟩
    rintro (old | ⟨chain, high, fresh⟩)
    · exact old
    · exact absurd (behind.of_le chain (Nat.le_of_lt high)) fresh

omit keeps in
theorem Receives.history_cases :
    place.chain <:+ party.history ∧ party'.history = party.history ∨
      ¬ place.chain <:+ party.history ∧ place.chain.tail = party.history ∧ party'.history = place.chain := by
  cases receives with
  | move moves =>
    cases moves with
    | newChain follows turn started => exact Or.inr ⟨not_suffix_of_tail follows started, follows, rfl⟩
    | onChain known ahead => exact Or.inl ⟨(ok.known _ (List.mem_of_getElem? known)).2.1, rfl⟩
  | fetch found => exact Or.inl ⟨(ok.skipped_behind place (List.mem_of_getElem? found)).chain, rfl⟩

omit keeps in
theorem Receives.history_of_known (known : place.chain <:+ party.history) : party'.history = party.history := by
  rcases receives.history_cases ok with ⟨-, same⟩ | ⟨new, -⟩
  · exact same
  · exact absurd known new

end Receives

/-! ### Two steps -/

section Two

variable {p q : Place Pair} {start afterP afterQ endPQ endQP : Party Pair}

/-- A place on a chain that the party has changes nothing for the other one. -/
theorem history_comm_of_known (ok : start.Ok maxSkipped side) (okP : afterP.Ok maxSkipped side)
    (okQ : afterQ.Ok maxSkipped side) (known : p.chain <:+ start.history)
    (p_first : Receives maxChains maxSkipped side start p afterP)
    (q_next : Receives maxChains maxSkipped side afterP q endPQ)
    (q_first : Receives maxChains maxSkipped side start q afterQ)
    (p_next : Receives maxChains maxSkipped side afterQ p endQP) : endPQ.history = endQP.history := by
  rw [p_next.history_of_known okQ (known.trans q_first.grows)]
  have same := p_first.history_of_known ok known
  rcases q_first.history_cases ok with ⟨qKnown, history⟩ | ⟨new, -, history⟩
  · rw [q_next.history_of_known okP (same ▸ qKnown), same, history]
  · rcases q_next.history_cases okP with ⟨qKnown, -⟩ | ⟨-, -, history'⟩
    · exact absurd (same ▸ qKnown) new
    · rw [history', history]

theorem history_comm (ok : start.Ok maxSkipped side) (okP : afterP.Ok maxSkipped side)
    (okQ : afterQ.Ok maxSkipped side) (p_first : Receives maxChains maxSkipped side start p afterP)
    (q_next : Receives maxChains maxSkipped side afterP q endPQ)
    (q_first : Receives maxChains maxSkipped side start q afterQ)
    (p_next : Receives maxChains maxSkipped side afterQ p endQP) : endPQ.history = endQP.history := by
  rcases p_first.history_cases ok with ⟨known, -⟩ | ⟨pNew, pFollows, historyP⟩
  · exact history_comm_of_known ok okP okQ known p_first q_next q_first p_next
  rcases q_first.history_cases ok with ⟨known, -⟩ | ⟨qNew, qFollows, historyQ⟩
  · exact (history_comm_of_known ok okQ okP known q_first p_next p_first q_next).symm
  -- both start a chain after the same one, so it is one chain
  rcases q_next.history_cases okP with ⟨qKnown, historyPQ⟩ | ⟨-, follows, -⟩
  · rcases p_next.history_cases okQ with ⟨-, historyQP⟩ | ⟨-, follows, -⟩
    · rw [historyPQ, historyQP, historyP, historyQ]
      have started : p.chain ≠ [] := by
        intro none
        rw [none] at pNew
        exact pNew List.nil_suffix
      obtain ⟨pair, rest, whole⟩ := List.exists_cons_of_ne_nil started
      rw [whole, List.tail_cons] at pFollows
      rw [historyP, whole, pFollows] at qKnown
      rw [whole, pFollows]
      exact ((List.suffix_cons_iff.mp qKnown).resolve_right qNew).symm
    · rw [pFollows, historyQ] at follows
      exact absurd (follows ▸ List.suffix_rfl) qNew
  · rw [qFollows, historyP] at follows
    exact absurd (follows ▸ List.suffix_rfl) pNew

/-- What a party is past, keeps and has skipped after two places does not depend on which came first. -/
theorem Receives.comm (room : 0 < maxChains) (ok : start.Ok maxSkipped side) (different : p ≠ q)
    (p_first : Receives maxChains maxSkipped side start p afterP)
    (q_next : Receives maxChains maxSkipped side afterP q endPQ)
    (q_first : Receives maxChains maxSkipped side start q afterQ)
    (p_next : Receives maxChains maxSkipped side afterQ p endQP)
    (keepsP : Keeps maxSkipped start afterP) (keepsPQ : Keeps maxSkipped afterP endPQ)
    (keepsQ : Keeps maxSkipped start afterQ) (keepsQP : Keeps maxSkipped afterQ endQP) :
    endPQ.history = endQP.history ∧ endPQ.sending = endQP.sending ∧ endPQ.receiving = endQP.receiving ∧
      endPQ.skipped.Perm endQP.skipped := by
  have okP := p_first.ok ok room
  have okQ := q_first.ok ok room
  have okPQ := q_next.ok okP room
  have okQP := p_next.ok okQ room
  have behindP {x : Place Pair} : Behind side afterP x ↔
      Behind side start x ∨ x.chain = p.chain ∧ x.position ≤ p.position := p_first.behind_iff room ok keepsP
  have behindQ {x : Place Pair} : Behind side afterQ x ↔
      Behind side start x ∨ x.chain = q.chain ∧ x.position ≤ q.position := q_first.behind_iff room ok keepsQ
  have apart (chain : p.chain = q.chain) : p.position ≠ q.position :=
    fun position => different (Place.eq_iff.mpr ⟨chain, position⟩)
  refine ⟨history_comm ok okP okQ p_first q_next q_first p_next, ?_, ?_, ?_⟩
  · rw [q_next.sending, p_first.sending, p_next.sending, q_first.sending]
  · apply chains_ext okPQ.distinct okQP.distinct
    intro next
    rw [q_next.mem_receiving room okP keepsPQ, p_first.mem_receiving room ok keepsP,
      p_next.mem_receiving room okQ keepsQP, q_first.mem_receiving room ok keepsQ, behindP, behindQ]
    have pUnder (chain : p.chain = q.chain) (position : p.position ≤ q.position) (behind : Behind side start q) :
        Behind side start p := behind.of_le chain position
    have qUnder (chain : q.chain = p.chain) (position : q.position ≤ p.position) (behind : Behind side start p) :
        Behind side start q := behind.of_le chain position
    grind
  · rw [List.perm_ext_iff_of_nodup okPQ.skipped_nodup okQP.skipped_nodup]
    intro x
    rw [q_next.mem_skipped okP keepsPQ, p_first.mem_skipped ok keepsP, p_next.mem_skipped okQ keepsQP,
      q_first.mem_skipped ok keepsQ, behindP, behindQ]
    simp only [ne_eq, Place.eq_iff]
    grind

end Two

end Exchange

end RubyOlm
