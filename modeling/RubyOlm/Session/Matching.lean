import RubyOlm.Session.Establishment
import RubyOlm.Session.Reading

/-!
# Which messages a session is for

`new_inbound_session` and `matches_inbound_session` check and compare the fields of a message, each in its own way, but a
session that one of them made from a message has exactly the keys that the other looks for.
-/

namespace RubyOlm.Session

open Payload

variable {Key : Type} (ops : RatchetOps Key Bytes)

theorem receiveRatchetKey_keys (session : Session Key) (account : Account) (message : Bytes) :
    (session.receiveRatchetKey ops account message).1.aliceIdentityKey = session.aliceIdentityKey ∧
      (session.receiveRatchetKey ops account message).1.aliceBaseKey = session.aliceBaseKey ∧
      (session.receiveRatchetKey ops account message).1.bobOneTimeKey = session.bobOneTimeKey := by
  unfold receiveRatchetKey
  split
  · exact ⟨rfl, rfl, rfl⟩
  · split
    · exact ⟨rfl, rfl, rfl⟩
    · split <;> exact ⟨rfl, rfl, rfl⟩

variable {memory memory' session session' : Session Key} {stack stack' : PreKeyMessageReader} {account : Account}
  {theirIdentityKey : Option PublicKey} {raw raw' : Bytes}

/-- Past the checks a session is only made from a message with everything, also when the caller brings the identity. -/
theorem read_of_created
    (created : memory.newInboundSession ops stack account theirIdentityKey raw = some (session, some ())) :
    ∃ identityKey baseKey oneTimeKey message, PreKeyRead (payloadOf raw 0) identityKey baseKey oneTimeKey message ∧
      ∀ key ∈ theirIdentityKey, key = identityKey := by
  rw [newInboundSession] at created
  dsimp only at created
  split at created
  · cases created
  rename_i checked
  split at created
  · cases created
  rename_i same
  split at created
  · rename_i identity base oneTime text found found' found'' found'''
    rw [Bool.not_eq_true', Bool.not_eq_false, checkMessageFields_iff, found] at checked
    have whole : checkMessageFields (decodeOneTimeKeyMessage stack raw) false := by
      rw [checkMessageFields_iff, found]
      exact ⟨checked.1.imp_right fun absent => absurd absent.1 (Option.some_ne_none _), checked.2⟩
    obtain ⟨identityKey, baseKey, oneTimeKey, message, read⟩ := (checkMessageFields_read_iff stack raw).mp whole
    refine ⟨identityKey, baseKey, oneTimeKey, message, read, ?_⟩
    rintro key rfl
    obtain ⟨identity', -, -, -, there, bytes, -⟩ := read.spans stack
    obtain rfl := Option.some.inj (found.symm.trans there)
    rw [Bool.not_eq_true', Bool.not_eq_false, Option.all_some, found, sameKey, Option.all_some, decide_eq_true_eq,
      bytes, Block.load_val] at same
    exact same.symm
  · cases created

theorem ownKeysRead_of_created
    (created : memory.newInboundSession ops stack account theirIdentityKey raw = some (session, some ())) :
    OwnKeysRead session raw ∧ ∀ key ∈ theirIdentityKey, key = session.aliceIdentityKey := by
  obtain ⟨identityKey, baseKey, oneTimeKey, message, read, same⟩ := read_of_created ops created
  rw [newInboundSession_of_read ops read same] at created
  have made := congrArg Prod.fst (Option.some.inj created)
  obtain ⟨identity, base, oneTime⟩ := receiveRatchetKey_keys ops
    { memory with aliceIdentityKey := identityKey, aliceBaseKey := baseKey, bobOneTimeKey := oneTimeKey } account message
  rw [made] at identity base oneTime
  rw [OwnKeysRead, identity, base, oneTime]
  exact ⟨⟨message, read⟩, same⟩

/-- Whatever is in the decoder's structure at each call. -/
theorem matches_iff_same_keys (account : Account) :
    (∀ {memory memory' session session' : Session Key} {raw raw' : Bytes} {stack stack' : PreKeyMessageReader},
      memory.newInboundSession ops stack account none raw = some (session, some ()) →
      memory'.newInboundSession ops stack' account none raw' = some (session', some ()) →
      ∀ stack'', session.matchesInboundSession stack'' none raw' ↔
        session.aliceIdentityKey = session'.aliceIdentityKey ∧ session.aliceBaseKey = session'.aliceBaseKey ∧
          session.bobOneTimeKey = session'.bobOneTimeKey) ∧
      (∀ {memory session : Session Key} {raw : Bytes} {stack : PreKeyMessageReader},
        memory.newInboundSession ops stack account none raw = some (session, some ()) →
        ∀ stack', session.matchesInboundSession stack' none raw) ∧
      ∀ {memory session : Session Key} {raw : Bytes} {stack : PreKeyMessageReader} {theirIdentityKey : PublicKey},
        memory.newInboundSession ops stack account (some theirIdentityKey) raw = some (session, some ()) →
        ∀ stack', session.matchesInboundSession stack' (some theirIdentityKey) raw ∧
          ∀ other ≠ theirIdentityKey, ¬ session.matchesInboundSession stack' (some other) raw := by
  refine ⟨?_, ?_, ?_⟩
  · intro memory memory' session session' raw raw' stack stack' _ created' stack''
    obtain ⟨⟨message, read⟩, -⟩ := ownKeysRead_of_created ops created'
    rw [matchesInboundSession_of_read read]
    constructor
    · rintro ⟨identity, -, base, oneTime⟩
      exact ⟨identity.symm, base.symm, oneTime.symm⟩
    · rintro ⟨identity, base, oneTime⟩
      exact ⟨identity.symm, by rintro _ ⟨⟩, base.symm, oneTime.symm⟩
  · intro memory session raw stack created stack'
    exact (matchesInboundSession_own_iff _ raw).mpr (ownKeysRead_of_created ops created).1
  · intro memory session raw stack theirIdentityKey created stack'
    obtain ⟨⟨message, read⟩, same⟩ := ownKeysRead_of_created ops created
    obtain rfl := same theirIdentityKey rfl
    constructor
    · rw [matchesInboundSession_of_read read]
      exact ⟨rfl, same, rfl, rfl⟩
    · intro other different answers
      exact different (((matchesInboundSession_of_read read _).mp answers).2.1 other rfl)

/-- A message to an account of zeros, by any one-time key. -/
def messageUnder (baseKey : PublicKey) : Bytes :=
  let body := olmMessage Crypto.plain (Block.zero 32) 0 (Block.zero 32) []
  preKeyHeader protocolVersion (Block.zero 32).val baseKey.val (Block.zero 32).val body.length ++ body

def zeroMessage : Bytes := messageUnder (Block.zero 32)

theorem matches_zeroMessage :
    let ops := olmRatchet Crypto.plain ⟨0, ⟨0, false⟩, none, none⟩
    let account := clearAccount.generateOneTimeKey Crypto.plain []
    (∃ session session',
      (new clearSession).newInboundSession ops clearReader account none zeroMessage = some (session, some ()) ∧
      (new clearSession).newInboundSession ops clearReader account none (messageUnder basepoint) =
        some (session', some ()) ∧
      session.matchesInboundSession clearReader none zeroMessage ∧
      ¬ session.matchesInboundSession clearReader none (messageUnder basepoint) ∧
      session.aliceBaseKey ≠ session'.aliceBaseKey) ∧
    ∃ session, (new clearSession).newInboundSession ops clearReader account (some (Block.zero 32)) zeroMessage =
        some (session, some ()) ∧
      session.matchesInboundSession clearReader (some (Block.zero 32)) zeroMessage ∧
      ¬ session.matchesInboundSession clearReader (some basepoint) zeroMessage := by
  intro ops account
  have created (identity : Option PublicKey) (baseKey : PublicKey)
      (received : ((new clearSession).newInboundSession ops clearReader account identity (messageUnder baseKey)).map
        (fun result => (result.2, result.1.aliceBaseKey)) = some (some (), baseKey)) :
      ∃ session : Session (Block 32), session.aliceBaseKey = baseKey ∧
        (new clearSession).newInboundSession ops clearReader account identity (messageUnder baseKey) =
          some (session, some ()) := by
    obtain ⟨⟨session, result⟩, done, values⟩ := Option.map_eq_some_iff.mp received
    obtain ⟨rfl, base⟩ := Prod.mk.inj values
    exact ⟨session, base, done⟩
  obtain ⟨pairwise, own, identified⟩ := matches_iff_same_keys ops account
  constructor
  · obtain ⟨session, base, done⟩ := created none (Block.zero 32) (by decide +kernel)
    obtain ⟨session', base', done'⟩ := created none basepoint (by decide +kernel)
    have different : session.aliceBaseKey ≠ session'.aliceBaseKey := by
      rw [base, base']
      decide
    refine ⟨session, session', done, done', own done _, ?_, different⟩
    intro answers
    exact different ((pairwise done done' clearReader).mp answers).2.1
  · obtain ⟨session, -, done⟩ := created (some (Block.zero 32)) (Block.zero 32) (by decide +kernel)
    obtain ⟨accepts, refuses⟩ := identified done clearReader
    exact ⟨session, done, accepts, refuses basepoint (by decide)⟩

end RubyOlm.Session
