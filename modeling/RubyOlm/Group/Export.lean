import RubyOlm.Group.Cache

/-!
# Exports

An export at an index, imported again, is a session that starts at that index and agrees with the old one from
there on. As long as all requests stay within half the 32-bit range of the first known index, the cached ratchet
of neither session shows.
-/

namespace RubyOlm.InboundGroupSession

variable (crypto : Crypto)

/-- The indices from `first` on, for half the range. -/
def Within (first messageIndex : UInt32) : Prop := messageIndex - first < 2 ^ 31

/-- `copy` starts at `messageIndex` and, whatever is asked of it within the range of `first`, agrees with
`session` there. -/
structure CopyAt (first messageIndex : UInt32) (session copy : InboundGroupSession) : Prop where
  unverified : copy.isVerified = false
  firstKnown : copy.firstKnownIndex = messageIndex
  sameId : ∀ idLength, (copy.sessionId idLength).2 = (session.sessionId idLength).2
  same : ∀ used, Reached crypto (fun _ requested => Within first requested) copy used →
    ∀ requested, Within first requested → Within messageIndex requested →
      ∃ megolm, (used.getMegolm crypto requested).2 = some megolm ∧ (session.getMegolm crypto requested).2 = some megolm
  before : ∀ used, Reached crypto (fun _ requested => Within first requested) copy used →
    ∀ requested, Within first requested → ¬ Within messageIndex requested →
      used.getMegolm crypto requested = ({ used with lastError := .unknownMessageIndex }, none)

/-- At any time the session can be exported and imported again, and the copy as well, `generations` times. -/
def Shares : (generations : Nat) → InboundGroupSession → Prop
  | 0, _ => True
  | generations + 1, start =>
    ∀ session, Reached crypto (fun _ requested => Within start.firstKnownIndex requested) start session →
      ∀ messageIndex, Within start.firstKnownIndex messageIndex →
        ∀ keyLength, encodeBase64Length sessionExportRawLength ≤ keyLength →
          ∃ session' key copy, session.exportSession crypto keyLength messageIndex = (session', some key) ∧
            clear.importSession crypto key = (copy, some ()) ∧
            CopyAt crypto start.firstKnownIndex messageIndex session' copy ∧ Shares generations copy

variable {crypto} {start session : InboundGroupSession} {first messageIndex : UInt32}

/-- The cache has not left the range of `first`. -/
structure CachedWithin (crypto : Crypto) (first : UInt32) (start session : InboundGroupSession) : Prop
    extends Cached crypto start session where
  start_within : Within first start.initialRatchet.counter
  within : Within first session.latestRatchet.counter

/-- Of indices in range, those that are not before `start` are as far ahead of it as they look. -/
theorem within_of_le {index : UInt32} (in_range : Within first messageIndex) (index_in_range : Within first index) :
    Within index messageIndex ↔ (index - first).toNat ≤ (messageIndex - first).toNat := by
  unfold Within at *
  have low : (2 ^ 31 : UInt32).toNat = 2147483648 := rfl
  have := first.toNat_lt
  have := index.toNat_lt
  have := messageIndex.toNat_lt
  simp only [UInt32.lt_iff_toNat_lt, UInt32.toNat_sub, low] at *
  omega

theorem CachedWithin.initial_le (cached : CachedWithin crypto first start session) :
    (start.initialRatchet.counter - first).toNat ≤ (session.latestRatchet.counter - first).toNat := by
  have near := cached.near
  have start_within := cached.start_within
  have within := cached.within
  unfold Within at start_within within
  have low : (2 ^ 31 : UInt32).toNat = 2147483648 := rfl
  have := first.toNat_lt
  have := start.initialRatchet.counter.toNat_lt
  have := session.latestRatchet.counter.toNat_lt
  simp only [UInt32.lt_iff_toNat_lt, UInt32.le_iff_toNat_le, UInt32.toNat_sub, low] at *
  omega

theorem CachedWithin.getMegolm (cached : CachedWithin crypto first start session)
    (in_range : Within first messageIndex) : CachedWithin crypto first start (session.getMegolm crypto messageIndex).1 := by
  have initial_le := cached.initial_le
  have calm : ¬ Overtakes session messageIndex := by
    rintro ⟨ahead, far⟩
    have latest_le := (within_of_le in_range cached.within).mp ahead
    have near := (within_of_le in_range cached.start_within).mpr (Nat.le_trans initial_le latest_le)
    rw [cached.initial] at far
    exact absurd (UInt32.lt_trans far near) (UInt32.lt_irrefl _)
  refine ⟨getMegolm_cached cached.toCached calm, cached.start_within, ?_⟩
  unfold InboundGroupSession.getMegolm
  split
  · rename_i ahead
    have ahead : messageIndex - session.latestRatchet.counter < 2 ^ 31 := ahead
    dsimp only
    rw [cached.advanceTo ahead, advance_iterate_counter_sub]
    exact in_range
  · split
    · exact cached.within
    · exact cached.within

theorem CachedWithin.of_ratchets {after : InboundGroupSession} (cached : CachedWithin crypto first start session)
    (initial : after.initialRatchet = session.initialRatchet) (latest : after.latestRatchet = session.latestRatchet) :
    CachedWithin crypto first start after where
  initial := initial.trans cached.initial
  near := by rw [latest]; exact cached.near
  latest := by rw [latest]; exact cached.latest
  start_within := cached.start_within
  within := by rw [latest]; exact cached.within

theorem Reached.cachedWithin (cached : CachedWithin crypto first start start)
    (run : Reached crypto (fun _ requested => Within first requested) start session) :
    CachedWithin crypto first start session := by
  induction run with
  | start => exact cached
  | @call session call _ in_range ih =>
    obtain ⟨initial, latest⟩ := call.apply_ratchets crypto session
    cases request : call.lookup crypto session with
    | none =>
      rw [request] at initial latest
      exact ih.of_ratchets initial latest
    | some messageIndex =>
      rw [request] at initial latest
      exact (ih.getMegolm (in_range messageIndex request)).of_ratchets initial latest

theorem Loaded.cachedWithin (loaded : Loaded crypto start) (in_range : Within first start.initialRatchet.counter) :
    CachedWithin crypto first start start := by
  refine ⟨loaded.cached, in_range, ?_⟩
  obtain ⟨before, sessionKey, loaded | loaded⟩ := loaded
  all_goals
    rw [loadSessionKey_ratchets loaded]
    exact in_range

/-- What lies before the first known index is not found, however far the cache is. -/
theorem CachedWithin.getMegolm_before (cached : CachedWithin crypto first start session)
    (in_range : Within first messageIndex) (before : ¬ Within start.initialRatchet.counter messageIndex) :
    session.getMegolm crypto messageIndex = ({ session with lastError := .unknownMessageIndex }, none) := by
  have initial_le := cached.initial_le
  have lt := mt (within_of_le in_range cached.start_within).mpr before
  have not_ahead : ¬ messageIndex - session.latestRatchet.counter < (1 : UInt32) <<< 31 := by
    intro ahead
    exact lt (Nat.le_trans initial_le ((within_of_le in_range cached.within).mp ahead))
  have far : messageIndex - session.initialRatchet.counter ≥ (1 : UInt32) <<< 31 := by
    rw [cached.initial]
    exact UInt32.not_lt.mp before
  unfold InboundGroupSession.getMegolm
  rw [if_neg not_ahead, if_pos far]

/-- In one range, the steps to an index and on from there are the steps from the start. -/
theorem iterate_within (in_range : Within first messageIndex) {requested : UInt32} (ahead : Within messageIndex requested) (megolm : Megolm (Block 32)) :
    (Megolm.advance (megolmHash crypto))^[(requested - messageIndex).toNat]
        ((Megolm.advance (megolmHash crypto))^[(messageIndex - first).toNat] megolm) =
      (Megolm.advance (megolmHash crypto))^[(requested - first).toNat] megolm := by
  rw [← Function.iterate_add_apply, toNat_sub_add_sub (UInt32.le_of_lt in_range) ahead]

theorem within_first (first : UInt32) : Within first first := by
  unfold Within
  rw [UInt32.sub_self]
  decide

variable (crypto) in
theorem getMegolm_signingKey (session : InboundGroupSession) (messageIndex : UInt32) :
    (session.getMegolm crypto messageIndex).1.signingKey = session.signingKey := by
  unfold InboundGroupSession.getMegolm
  split
  · rfl
  · split <;> rfl

/-- An export in range, and what its import makes of it. -/
theorem exportSession_imported (cached : CachedWithin crypto start.firstKnownIndex start session)
    (in_range : Within start.firstKnownIndex messageIndex) {keyLength : Nat}
    (room : encodeBase64Length sessionExportRawLength ≤ keyLength) :
    let megolm := (Megolm.advance (megolmHash crypto))^[(messageIndex - start.firstKnownIndex).toNat] start.initialRatchet
    ∃ key, session.exportSession crypto keyLength messageIndex =
        ((session.getMegolm crypto messageIndex).1, some key) ∧
      clear.importSession crypto key =
        ({ clear with initialRatchet := megolm, latestRatchet := megolm, signingKey := session.signingKey },
          some ()) := by
  intro megolm
  have got : (session.getMegolm crypto messageIndex).2 = some megolm := cached.transparent messageIndex in_range
  have counter : megolm.counter = messageIndex := advance_iterate_counter_sub _ _
  refine ⟨encodeBase64 (sessionKeyLayout sessionExportVersion megolm session.signingKey), ?_,
    importSession_layout crypto clear megolm session.signingKey⟩
  unfold exportSession
  rw [if_neg (Nat.not_lt.mpr room)]
  rcases done : session.getMegolm crypto messageIndex with ⟨session', _ | megolm'⟩
  · rw [done] at got
    cases got
  · rw [done] at got
    obtain rfl := Option.some.inj got
    have signingKey : session'.signingKey = session.signingKey := by
      rw [← getMegolm_signingKey crypto session messageIndex, done]
    dsimp only
    rw [signingKey, sessionKeyLayout, counter]

/-- What an import of the exported ratchet makes is a copy. -/
theorem copyAt_imported (cached : CachedWithin crypto start.firstKnownIndex start session)
    (in_range : Within start.firstKnownIndex messageIndex) {copy : InboundGroupSession} (loaded : Loaded crypto copy)
    (initial : copy.initialRatchet =
      (Megolm.advance (megolmHash crypto))^[(messageIndex - start.firstKnownIndex).toNat] start.initialRatchet)
    (unverified : copy.signingKeyVerified = false) (signingKey : copy.signingKey = session.signingKey) :
    CopyAt crypto start.firstKnownIndex messageIndex session copy := by
  have counter : copy.initialRatchet.counter = messageIndex := by
    rw [initial]
    exact advance_iterate_counter_sub _ _
  have copy_within (used : InboundGroupSession)
      (run : Reached crypto (fun _ requested => Within start.firstKnownIndex requested) copy used) :
      CachedWithin crypto start.firstKnownIndex copy used :=
    run.cachedWithin (loaded.cachedWithin (counter ▸ in_range))
  refine ⟨unverified, counter, ?_, ?_, ?_⟩
  · intro idLength
    unfold sessionId
    rw [signingKey]
    split <;> rfl
  · intro used run requested requested_in_range ahead
    refine ⟨_, ?_, cached.transparent requested requested_in_range⟩
    rw [(copy_within used run).transparent requested (counter ▸ ahead), counter, initial,
      iterate_within in_range ahead]
    rfl
  · intro used run requested requested_in_range before
    exact (copy_within used run).getMegolm_before requested_in_range (counter ▸ before)

theorem shares (loaded : Loaded crypto start) (generations : Nat) : Shares crypto generations start := by
  induction generations generalizing start with
  | zero => trivial
  | succ generations ih =>
    intro session run messageIndex in_range keyLength room
    have cached := run.cachedWithin (loaded.cachedWithin (within_first start.firstKnownIndex))
    obtain ⟨key, exported, imported⟩ := exportSession_imported cached in_range room
    have copy_loaded : Loaded crypto _ := ⟨clear, key, .inr imported⟩
    have copied := copyAt_imported (cached.getMegolm in_range) in_range copy_loaded rfl rfl
      (getMegolm_signingKey crypto session messageIndex).symm
    exact ⟨_, key, _, exported, imported, copied, ih copy_loaded⟩

theorem shares_fresh : Shares Crypto.plain 2 fresh := shares fresh_loaded 2

end RubyOlm.InboundGroupSession
