import RubyOlm.Group.SessionKey
import RubyOlm.Megolm.AdvanceTo

/-!
# The cached ratchet

`_get_megolm` answers from the latest ratchet when the index is less than half the 32-bit range ahead
of it, and moves the latest ratchet there. The cache is transparent as long as it is at most half
the range ahead of the initial ratchet, which the code checks only for indices behind the cache.
-/

namespace RubyOlm.InboundGroupSession

variable (crypto : Crypto)

inductive Call where
  | decrypt (stack : GroupMessageResults) (message : Bytes) (maxPlaintextLength : Nat)
  | export (keyLength : Nat) (messageIndex : UInt32)

def Call.apply (session : InboundGroupSession) : Call → InboundGroupSession
  | decrypt stack message maxPlaintextLength =>
    (session.decrypt crypto stack message maxPlaintextLength).session
  | «export» keyLength messageIndex => (session.exportSession crypto keyLength messageIndex).1

/-- The index a call hands to `_get_megolm`, if it gets that far. -/
def Call.lookup (session : InboundGroupSession) : Call → Option UInt32
  | decrypt stack message maxPlaintextLength =>
    match decodeBase64Length message.length with
    | none => none
    | some _ =>
      let raw := decodeBase64 message
      let decoded := decodeGroupMessage stack raw (megolmCipher crypto).macLength signatureLength
      if decoded.version ≠ protocolVersion then none
      else
        match decoded.hasMessageIndex, decoded.ciphertext with
        | true, some ciphertext =>
          let messageLength := raw.length - signatureLength
          if ¬ crypto.ed25519.verify (Block.load 64 (raw.drop messageLength)) (raw.take messageLength)
              session.signingKey then none
          else if maxPlaintextLength < (megolmCipher crypto).decryptMaxPlaintextLength ciphertext.length then
            none
          else some decoded.messageIndex
        | _, _ => none
  | «export» keyLength messageIndex =>
    if keyLength < encodeBase64Length sessionExportRawLength then none else some messageIndex

/-- `_get_megolm` would move the cache to an index that the initial ratchet does not reach. -/
def Overtakes (session : InboundGroupSession) (messageIndex : UInt32) : Prop :=
  messageIndex - session.latestRatchet.counter < 2 ^ 31 ∧
    2 ^ 31 < messageIndex - session.initialRatchet.counter

def Loaded (session : InboundGroupSession) : Prop :=
  ∃ (before : InboundGroupSession) (sessionKey : Bytes),
    before.init crypto sessionKey = (session, some ()) ∨
      before.importSession crypto sessionKey = (session, some ())

/-- The states reached from `start` by calls whose lookups are all `allowed`. -/
inductive Reached (allowed : InboundGroupSession → UInt32 → Prop) (start : InboundGroupSession) :
    InboundGroupSession → Prop where
  | start : Reached allowed start start
  | call {session : InboundGroupSession} (call : Call) :
      Reached allowed start session →
      (∀ messageIndex, call.lookup crypto session = some messageIndex → allowed session messageIndex) →
      Reached allowed start (call.apply crypto session)

/-- Every index that the first known one reaches gets the ratchet that single steps lead to. -/
def Transparent (start session : InboundGroupSession) : Prop :=
  ∀ messageIndex : UInt32, messageIndex - start.initialRatchet.counter < 2 ^ 31 →
    (session.getMegolm crypto messageIndex).2 =
      some ((Megolm.advance (megolmHash crypto))^[(messageIndex - start.initialRatchet.counter).toNat]
        start.initialRatchet)

/-- The initial ratchet is as loaded, and the cache is at most half the range ahead of it. -/
structure Cached (start session : InboundGroupSession) : Prop where
  initial : session.initialRatchet = start.initialRatchet
  near : session.latestRatchet.counter - start.initialRatchet.counter ≤ 2 ^ 31
  latest : session.latestRatchet =
    (Megolm.advance (megolmHash crypto))^[
      (session.latestRatchet.counter - start.initialRatchet.counter).toNat] start.initialRatchet

variable {crypto}

theorem loadSessionKey_ratchets {before session : InboundGroupSession} {sessionKey : Bytes}
    {expectedLength : Nat} {exportFormat : Bool}
    (loaded : before.loadSessionKey crypto sessionKey expectedLength exportFormat = (session, some ())) :
    session.latestRatchet = session.initialRatchet := by
  unfold loadSessionKey at loaded
  split at loaded
  · cases loaded
  split at loaded
  · cases loaded
  simp only [initGroupSessionKeys] at loaded
  repeat' split at loaded
  all_goals cases loaded <;> rfl

theorem Loaded.cached {session : InboundGroupSession} (loaded : Loaded crypto session) :
    Cached crypto session session := by
  obtain ⟨before, sessionKey, loaded | loaded⟩ := loaded
  all_goals
    have same := loadSessionKey_ratchets loaded
    refine ⟨rfl, ?_, ?_⟩
    · rw [same, UInt32.sub_self]; decide
    · rw [same, UInt32.sub_self]; rfl

/-- A jump of at most half the range and one of less than half make one jump that does not wrap. -/
theorem toNat_sub_add_sub {target middle start : UInt32} (first : middle - start ≤ 2 ^ 31)
    (second : target - middle < 2 ^ 31) :
    (target - middle).toNat + (middle - start).toNat = (target - start).toNat := by
  have first : (middle - start).toNat ≤ 2 ^ 31 := UInt32.le_iff_toNat_le.mp first
  have second : (target - middle).toNat < 2 ^ 31 := UInt32.lt_iff_toNat_lt.mp second
  have := target.toNat_lt
  have := middle.toNat_lt
  have := start.toNat_lt
  rw [UInt32.toNat_sub] at first second ⊢
  rw [UInt32.toNat_sub, UInt32.toNat_sub]
  omega

/-- Jumping from the cache is stepping from the start. -/
theorem Cached.advanceTo {start session : InboundGroupSession} (cached : Cached crypto start session)
    {messageIndex : UInt32} (ahead : messageIndex - session.latestRatchet.counter < 2 ^ 31) :
    Megolm.advanceTo (megolmHash crypto) session.latestRatchet messageIndex =
      (Megolm.advance (megolmHash crypto))^[(messageIndex - start.initialRatchet.counter).toNat]
        start.initialRatchet := by
  rw [Megolm.advanceTo_eq_iterate, ← toNat_sub_add_sub cached.near ahead, Function.iterate_add_apply,
    ← cached.latest]

theorem advance_iterate_counter_sub (start : Megolm (Block 32)) (target : UInt32) :
    ((Megolm.advance (megolmHash crypto))^[(target - start.counter).toNat] start).counter = target := by
  rw [Megolm.iterate_counter, UInt32.ofNat_toNat, UInt32.add_comm, UInt32.sub_add_cancel]

theorem getMegolm_cached {start session : InboundGroupSession} {messageIndex : UInt32}
    (cached : Cached crypto start session) (calm : ¬ Overtakes session messageIndex) :
    Cached crypto start (session.getMegolm crypto messageIndex).1 := by
  unfold getMegolm
  split
  · rename_i ahead
    have ahead : messageIndex - session.latestRatchet.counter < 2 ^ 31 := ahead
    have counter : (Megolm.advanceTo (megolmHash crypto) session.latestRatchet messageIndex).counter =
        messageIndex := by
      rw [cached.advanceTo ahead, advance_iterate_counter_sub]
    refine ⟨cached.initial, ?_, ?_⟩
    · have near : ¬ 2 ^ 31 < messageIndex - session.initialRatchet.counter := fun far => calm ⟨ahead, far⟩
      rw [cached.initial] at near
      dsimp only
      rw [counter]
      exact UInt32.not_lt.mp near
    · dsimp only
      rw [counter]
      exact cached.advanceTo ahead
  split
  · exact ⟨cached.initial, cached.near, cached.latest⟩
  · exact cached

theorem Cached.transparent {start session : InboundGroupSession} (cached : Cached crypto start session) :
    Transparent crypto start session := by
  intro messageIndex known
  unfold getMegolm
  split
  · rename_i ahead
    rw [cached.advanceTo ahead]
  rename_i behind
  rw [cached.initial]
  split
  · rename_i far
    exact absurd known (UInt32.not_lt.mpr far)
  · rw [Megolm.advanceTo_eq_iterate]

/-- The ratchet that the cache is at is answered as it is. -/
theorem getMegolm_latest (crypto : Crypto) (session : InboundGroupSession) :
    session.getMegolm crypto session.latestRatchet.counter = (session, some session.latestRatchet) := by
  have near : session.latestRatchet.counter - session.latestRatchet.counter < (1 : UInt32) <<< 31 := by
    rw [UInt32.sub_self]
    decide
  have same : Megolm.advanceTo (megolmHash crypto) session.latestRatchet session.latestRatchet.counter =
      session.latestRatchet := by
    rw [Megolm.advanceTo_eq_iterate, UInt32.sub_self]
    rfl
  rw [getMegolm, if_pos near, same]

variable (crypto) in
theorem Call.apply_ratchets (session : InboundGroupSession) (call : Call) :
    let after := match call.lookup crypto session with
      | none => session
      | some messageIndex => (session.getMegolm crypto messageIndex).1
    (call.apply crypto session).initialRatchet = after.initialRatchet ∧
      (call.apply crypto session).latestRatchet = after.latestRatchet := by
  cases call with
  | decrypt stack message maxPlaintextLength =>
    simp only [apply, InboundGroupSession.decrypt, lookup]
    cases decodeBase64Length message.length with
    | none => exact ⟨rfl, rfl⟩
    | some length =>
      dsimp only
      unfold decryptRaw
      dsimp only
      generalize decodeGroupMessage stack (decodeBase64 message) (megolmCipher crypto).macLength
        signatureLength = decoded
      obtain ⟨version, messageIndex, hasMessageIndex, ciphertext⟩ := decoded
      by_cases known : version ≠ protocolVersion
      · rw [if_pos known, if_pos known]
        exact ⟨rfl, rfl⟩
      rw [if_neg known, if_neg known]
      rcases hasMessageIndex with _ | _
      · exact ⟨rfl, rfl⟩
      rcases ciphertext with _ | ciphertext
      · exact ⟨rfl, rfl⟩
      dsimp only
      split
      · exact ⟨rfl, rfl⟩
      split
      · exact ⟨rfl, rfl⟩
      rcases h : session.getMegolm crypto messageIndex with ⟨after, _ | megolm⟩
      · simp only [h, and_self]
      · dsimp only
        split <;> simp only [h, and_self]
  | «export» keyLength messageIndex =>
    simp only [apply, exportSession, lookup]
    by_cases room : keyLength < encodeBase64Length sessionExportRawLength
    · rw [if_pos room, if_pos room]
      exact ⟨rfl, rfl⟩
    · rw [if_neg room, if_neg room]
      rcases h : session.getMegolm crypto messageIndex with ⟨after, _ | megolm⟩
      · simp only [h, and_self]
      · simp only [h, and_self]

theorem Reached.cached {start session : InboundGroupSession} (loaded : Loaded crypto start)
    (run : Reached crypto (fun session messageIndex => ¬ Overtakes session messageIndex) start session) :
    Cached crypto start session := by
  induction run with
  | start => exact loaded.cached
  | @call session call _ calm ih =>
    obtain ⟨initial, latest⟩ := call.apply_ratchets crypto session
    suffices Cached crypto start (match call.lookup crypto session with
        | none => session
        | some messageIndex => (session.getMegolm crypto messageIndex).1) from
      ⟨initial.trans this.initial, by rw [latest]; exact this.near, by rw [latest]; exact this.latest⟩
    cases request : call.lookup crypto session with
    | none => exact ih
    | some messageIndex => exact getMegolm_cached ih (calm messageIndex request)

/-- In a run that never moves the cache beyond half the range of the initial ratchet, every index
from known history gets its own ratchet. -/
theorem transparent_of_calm_run {start session : InboundGroupSession} (loaded : Loaded crypto start)
    (run : Reached crypto (fun session messageIndex => ¬ Overtakes session messageIndex) start session) :
    Transparent crypto start session :=
  (run.cached loaded).transparent

/-! ### A run that overtakes -/

def fresh : InboundGroupSession :=
  { clear with
    initialRatchet := Megolm.init (Block.zero 128) 0
    latestRatchet := Megolm.init (Block.zero 128) 0
    signingKey := Block.zero 32 }

theorem fresh_loaded : Loaded Crypto.plain fresh :=
  ⟨clear, _, Or.inr (importSession_layout _ clear (Megolm.init (Block.zero 128) 0) (Block.zero 32))⟩

theorem transparent_of_calm_run_exported :
    Transparent Crypto.plain fresh ((Call.export 220 7).apply Crypto.plain fresh) :=
  transparent_of_calm_run fresh_loaded
    (.call (.export 220 7) .start fun messageIndex request => by
      obtain rfl : 7 = messageIndex := Option.some.inj request
      rintro ⟨-, far⟩
      exact absurd far (by decide))

/-- Exports at 2^31 - 1 and at 2^31 + 5 carry the cache past the range of the initial ratchet, and
index 2 is then taken to be ahead of it. -/
theorem cache_not_transparent :
    ¬ ∀ (crypto : Crypto) (start session : InboundGroupSession), Loaded crypto start →
      Reached crypto (fun _ _ => True) start session → Transparent crypto start session := by
  intro transparent
  have run : Reached Crypto.plain (fun _ _ => True) fresh
      ((Call.export 220 0x80000005).apply Crypto.plain
        ((Call.export 220 0x7FFFFFFF).apply Crypto.plain fresh)) :=
    .call _ (.call _ .start fun _ _ => trivial) fun _ _ => trivial
  have got := transparent _ _ _ fresh_loaded run 2 (by decide)
  have first := congrArg (Option.map fun megolm => (megolm.data 0).val.head?) got
  exact absurd first (by decide)

end RubyOlm.InboundGroupSession
