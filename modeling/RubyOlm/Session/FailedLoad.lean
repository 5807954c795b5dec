import RubyOlm.Group.SessionKey
import RubyOlm.Session.Establishment
import RubyOlm.Session.KeyFields

/-!
# Loading that fails

`new_inbound_session` copies the keys of the message into the session before it looks at the message inside and
for the one-time key, and `_init_group_session_keys` stores a key share before it looks at the signature. What
fails after that has left its keys behind.
-/

namespace RubyOlm

namespace Session

variable {Key : Type} (ops : RatchetOps Key Bytes)

/-- Nothing but the error of a session has changed. -/
def Untouched (before after : Session Key) : Prop := after = { before with lastError := after.lastError }

theorem Untouched.unique {before before' after : Session Key} (untouched : Untouched before after)
    (untouched' : Untouched before' after) (error : before.lastError = before'.lastError) : before = before' := by
  have same := untouched.symm.trans untouched'
  cases before
  cases before'
  simp_all only [Session.mk.injEq]

/-- What `load_array` copies out of a field. -/
def fieldKey (message : Bytes) (field : Option Span) : PublicKey :=
  Block.load 32 (field.elim [] fun span => span.read message)

/-- The session with the keys of a message copied into it. -/
def copyKeys (session : Session Key) (reader : PreKeyMessageReader) (message : Bytes) : Session Key :=
  { session with
    aliceIdentityKey := fieldKey message reader.identityKey
    aliceBaseKey := fieldKey message reader.baseKey
    bobOneTimeKey := fieldKey message reader.oneTimeKey }

/-- The message inside has no ratchet key, or the account does not have the one-time key. -/
def Unusable (reader : PreKeyMessageReader) (localAccount : Account) (message : Bytes) : Prop :=
  (∀ ratchetKey, (ops.wire.read (reader.message.elim [] fun span => span.read message)).ratchetKey = some ratchetKey →
      ratchetKey.length ≠ 32) ∨
    localAccount.lookupKey (fieldKey message reader.oneTimeKey) = none

/-- A message whose keys are copied and that is then refused. -/
structure RefusedLate (stack : PreKeyMessageReader) (localAccount : Account) (theirIdentityKey : Option PublicKey)
    (oneTimeKeyMessage : Bytes) : Prop where
  checked : checkMessageFields (decodeOneTimeKeyMessage stack oneTimeKeyMessage) theirIdentityKey.isSome
  identity : isKey (decodeOneTimeKeyMessage stack oneTimeKeyMessage).identityKey
  same : theirIdentityKey.all fun key =>
    sameKey oneTimeKeyMessage (decodeOneTimeKeyMessage stack oneTimeKeyMessage).identityKey key
  unusable : Unusable ops (decodeOneTimeKeyMessage stack oneTimeKeyMessage) localAccount oneTimeKeyMessage

/-- The keys of a message are other ones than the session has. -/
def OtherKeys (stack : PreKeyMessageReader) (session : Session Key) (oneTimeKeyMessage : Bytes) : Prop :=
  session.copyKeys (decodeOneTimeKeyMessage stack oneTimeKeyMessage) oneTimeKeyMessage ≠ session

variable {stack : PreKeyMessageReader} {session after : Session Key} {localAccount : Account}
  {theirIdentityKey : Option PublicKey} {oneTimeKeyMessage : Bytes}

theorem receiveRatchetKey_eq_none_iff (message : Bytes) :
    (session.receiveRatchetKey ops localAccount message).2 = none ↔
      (∀ ratchetKey, (ops.wire.read message).ratchetKey = some ratchetKey → ratchetKey.length ≠ 32) ∨
        localAccount.lookupKey session.bobOneTimeKey = none := by
  unfold receiveRatchetKey
  split
  · rename_i missing
    rw [missing]
    exact ⟨fun _ => Or.inl nofun, fun _ => rfl⟩
  · rename_i ratchetKey found
    rw [found]
    split
    · rename_i length
      refine ⟨fun _ => Or.inl ?_, fun _ => rfl⟩
      rintro key same
      obtain rfl := Option.some.inj same
      exact length
    · rename_i length
      split
      · rename_i unknown
        exact ⟨fun _ => Or.inr unknown, fun _ => rfl⟩
      · rename_i known
        rw [known]
        constructor
        · intro done
          cases done
        · rintro (wrong | none)
          · exact absurd (not_not.mp length) (wrong ratchetKey rfl)
          · cases none

theorem receiveRatchetKey_failed {message : Bytes}
    (failed : (session.receiveRatchetKey ops localAccount message).2 = none) :
    Untouched session (session.receiveRatchetKey ops localAccount message).1 := by
  unfold receiveRatchetKey at failed ⊢
  split
  · rfl
  · split
    · rfl
    · split
      · rfl
      · simp_all

/-- Past the checks, and with an identity key in the message, the keys are copied and the rest is done. -/
theorem newInboundSession_copied
    (checked : checkMessageFields (decodeOneTimeKeyMessage stack oneTimeKeyMessage) theirIdentityKey.isSome)
    (identity : isKey (decodeOneTimeKeyMessage stack oneTimeKeyMessage).identityKey)
    (same : theirIdentityKey.all fun key =>
      sameKey oneTimeKeyMessage (decodeOneTimeKeyMessage stack oneTimeKeyMessage).identityKey key) :
    session.newInboundSession ops stack localAccount theirIdentityKey oneTimeKeyMessage =
      some ((session.copyKeys (decodeOneTimeKeyMessage stack oneTimeKeyMessage) oneTimeKeyMessage).receiveRatchetKey ops
        localAccount ((decodeOneTimeKeyMessage stack oneTimeKeyMessage).message.elim [] fun span =>
          span.read oneTimeKeyMessage)) := by
  obtain ⟨identityKey, identity_found, -⟩ := isKey_iff.mp identity
  obtain ⟨-, message, base, oneTime⟩ := checkMessageFields_iff.mp checked
  obtain ⟨message, message_found⟩ := Option.isSome_iff_exists.mp message
  obtain ⟨baseKey, base_found, -⟩ := isKey_iff.mp base
  obtain ⟨oneTimeKey, oneTime_found, -⟩ := isKey_iff.mp oneTime
  unfold newInboundSession
  rw [identity_found] at same
  simp only [checked, same, Bool.not_true, Bool.false_eq_true, if_false, identity_found, base_found, oneTime_found,
    message_found, copyKeys, fieldKey, Option.elim_some]

theorem newInboundSession_early
    (early : ¬ checkMessageFields (decodeOneTimeKeyMessage stack oneTimeKeyMessage) theirIdentityKey.isSome ∨
      ¬ isKey (decodeOneTimeKeyMessage stack oneTimeKeyMessage).identityKey ∨
      ¬ theirIdentityKey.all fun key =>
        sameKey oneTimeKeyMessage (decodeOneTimeKeyMessage stack oneTimeKeyMessage).identityKey key)
    {result : Option Unit}
    (done : session.newInboundSession ops stack localAccount theirIdentityKey oneTimeKeyMessage = some (after, result)) :
    Untouched session after := by
  by_cases checked : checkMessageFields (decodeOneTimeKeyMessage stack oneTimeKeyMessage) theirIdentityKey.isSome
  · by_cases same : theirIdentityKey.all fun key =>
        sameKey oneTimeKeyMessage (decodeOneTimeKeyMessage stack oneTimeKeyMessage).identityKey key
    · -- only a missing identity key is left, and the copy then reads through a null pointer
      have identity := (early.resolve_left (not_not.mpr checked)).resolve_right (not_not.mpr same)
      obtain ⟨found, message, base, oneTime⟩ := checkMessageFields_iff.mp checked
      obtain ⟨missing, supplied⟩ := found.resolve_left identity
      rw [(not_total_of_lacks ops ⟨supplied, missing, message, base, oneTime⟩).2] at done
      cases done
    · unfold newInboundSession at done
      simp only [checked, Bool.not_true, Bool.false_eq_true, if_false, Bool.eq_false_iff.mpr same, Bool.not_false,
        if_true] at done
      obtain ⟨rfl, -⟩ := Prod.mk.inj (Option.some.inj done)
      rfl
  · unfold newInboundSession at done
    simp only [Bool.eq_false_iff.mpr checked, Bool.not_false, if_true] at done
    obtain ⟨rfl, -⟩ := Prod.mk.inj (Option.some.inj done)
    rfl

/-- A failed `new_inbound_session` leaves the session untouched, unless it copied other keys first. -/
theorem newInboundSession_untouched_iff :
    (∀ after, session.newInboundSession ops stack localAccount theirIdentityKey oneTimeKeyMessage = some (after, none) →
        Untouched session after) ↔
      ¬ (RefusedLate ops stack localAccount theirIdentityKey oneTimeKeyMessage ∧
        OtherKeys stack session oneTimeKeyMessage) := by
  constructor
  · rintro untouched ⟨late, other⟩
    have copied : session.newInboundSession ops stack localAccount theirIdentityKey oneTimeKeyMessage = _ :=
      newInboundSession_copied ops late.checked late.identity late.same
    have failed : ((session.copyKeys (decodeOneTimeKeyMessage stack oneTimeKeyMessage)
        oneTimeKeyMessage).receiveRatchetKey ops localAccount _).2 = none :=
      (receiveRatchetKey_eq_none_iff ops _).mpr late.unusable
    have kept := untouched _ (copied.trans (congrArg some (Prod.ext rfl failed)))
    exact other ((receiveRatchetKey_failed ops failed).unique kept rfl)
  · intro fine after done
    by_cases early : ¬ checkMessageFields (decodeOneTimeKeyMessage stack oneTimeKeyMessage) theirIdentityKey.isSome ∨
      ¬ isKey (decodeOneTimeKeyMessage stack oneTimeKeyMessage).identityKey ∨
      ¬ theirIdentityKey.all fun key =>
        sameKey oneTimeKeyMessage (decodeOneTimeKeyMessage stack oneTimeKeyMessage).identityKey key
    · exact newInboundSession_early ops early done
    · simp only [not_or, not_not] at early
      obtain ⟨checked, identity, same⟩ := early
      rw [newInboundSession_copied ops checked identity same] at done
      have answer := Option.some.inj done
      have failed := congrArg Prod.snd answer
      have untouched := receiveRatchetKey_failed ops failed
      rw [answer] at untouched
      have unusable := (receiveRatchetKey_eq_none_iff ops _).mp failed
      by_cases other : OtherKeys stack session oneTimeKeyMessage
      · exact absurd ⟨⟨checked, identity, same, unusable⟩, other⟩ fine
      · unfold OtherKeys at other
        rwa [not_not.mp other] at untouched

/-- The message makes `new_inbound_session` fail with other keys left in the session. -/
def LeavesKeys (stack : PreKeyMessageReader) (session : Session Key) (localAccount : Account)
    (theirIdentityKey : Option PublicKey) (oneTimeKeyMessage : Bytes) : Prop :=
  RefusedLate ops stack localAccount theirIdentityKey oneTimeKeyMessage ∧ OtherKeys stack session oneTimeKeyMessage

theorem createInboundSession_untouched_iff :
    (∀ after, session.createInboundSession ops stack localAccount oneTimeKeyMessage = some (after, none) →
        Untouched session after) ↔
      ∀ raw, b64Input oneTimeKeyMessage = .ok raw → ¬ LeavesKeys ops stack session localAccount none raw := by
  unfold createInboundSession
  rcases input : b64Input oneTimeKeyMessage with error | raw
  · refine ⟨fun _ => nofun, fun _ after done => ?_⟩
    obtain ⟨rfl, -⟩ := Prod.mk.inj (Option.some.inj done)
    rfl
  · simp only [newInboundSession_untouched_iff, Except.ok.injEq, forall_eq']
    rfl

theorem createInboundSessionFrom_untouched_iff (theirIdentityKey : Bytes) :
    (∀ after, session.createInboundSessionFrom ops stack localAccount theirIdentityKey oneTimeKeyMessage =
        some (after, none) → Untouched session after) ↔
      ∀ identityKey raw, b64Key theirIdentityKey = some identityKey → b64Input oneTimeKeyMessage = .ok raw →
        ¬ LeavesKeys ops stack session localAccount (some identityKey) raw := by
  unfold createInboundSessionFrom
  rcases b64Key theirIdentityKey with _ | identityKey
  · refine ⟨fun _ _ _ => nofun, fun _ after done => ?_⟩
    obtain ⟨rfl, -⟩ := Prod.mk.inj (Option.some.inj done)
    rfl
  rcases b64Input oneTimeKeyMessage with error | raw
  · refine ⟨fun _ _ _ _ => nofun, fun _ after done => ?_⟩
    obtain ⟨rfl, -⟩ := Prod.mk.inj (Option.some.inj done)
    rfl
  · simp only [newInboundSession_untouched_iff, Except.ok.injEq, Option.some.injEq]
    constructor
    · rintro fine key raw' rfl rfl
      exact fine
    · intro fine
      exact fine identityKey raw rfl rfl

end Session

namespace InboundGroupSession

/-- Nothing but the error of a session has changed. -/
def Untouched (before after : InboundGroupSession) : Prop := after = { before with lastError := after.lastError }

variable (crypto : Crypto) (session : InboundGroupSession) (sessionKey : Bytes)

/-- A key share with a bad signature, of another session. -/
structure LeavesKey : Prop where
  decodes : Decodes sessionKey OutboundGroupSession.sessionKeyRawLength OutboundGroupSession.sessionKeyVersion
  unsigned : keySigned crypto (decodeBase64 sessionKey) (sharedKey (decodeBase64 sessionKey)) = false
  other : session.holding (decodeBase64 sessionKey) ≠ session

theorem Untouched.unique {before before' after : InboundGroupSession} (untouched : Untouched before after)
    (untouched' : Untouched before' after) (error : before.lastError = before'.lastError) : before = before' := by
  have same := untouched.symm.trans untouched'
  cases before
  cases before'
  simp_all only [InboundGroupSession.mk.injEq]

theorem init_untouched_iff :
    (∀ after, session.init crypto sessionKey = (after, none) → Untouched session after) ↔
      ¬ LeavesKey crypto session sessionKey := by
  by_cases decodes : Decodes sessionKey OutboundGroupSession.sessionKeyRawLength OutboundGroupSession.sessionKeyVersion
  · have done := init_of_decodes crypto session decodes
    by_cases signed : keySigned crypto (decodeBase64 sessionKey) (sharedKey (decodeBase64 sessionKey))
    · simp only [if_pos signed] at done
      refine ⟨fun _ leaves => Bool.false_ne_true (leaves.unsigned.symm.trans signed), fun _ after failed => ?_⟩
      cases done.symm.trans failed
    · simp only [if_neg signed] at done
      have held : Untouched (session.holding (decodeBase64 sessionKey))
          { session.holding (decodeBase64 sessionKey) with lastError := .badSignature } := rfl
      constructor
      · rintro untouched leaves
        exact leaves.other (held.unique (untouched _ done) rfl)
      · intro fine after failed
        obtain ⟨rfl, -⟩ := Prod.mk.inj (done.symm.trans failed)
        by_cases other : session.holding (decodeBase64 sessionKey) = session
        · rwa [other] at held ⊢
        · exact absurd ⟨decodes, Bool.eq_false_iff.mpr signed, other⟩ fine
  · refine ⟨fun _ leaves => decodes leaves.decodes, fun _ after failed => ?_⟩
    obtain ⟨error, done⟩ := init_of_not_decodes crypto session decodes
    obtain ⟨rfl, -⟩ := Prod.mk.inj (done.symm.trans failed)
    rfl

theorem importSession_untouched {after : InboundGroupSession}
    (failed : session.importSession crypto sessionKey = (after, none)) : Untouched session after := by
  by_cases decodes : Decodes sessionKey sessionExportRawLength sessionExportVersion
  · rw [importSession_of_decodes crypto session decodes] at failed
    cases failed
  · obtain ⟨error, done⟩ := importSession_of_not_decodes crypto session decodes
    obtain ⟨rfl, -⟩ := Prod.mk.inj (done.symm.trans failed)
    rfl

end InboundGroupSession

/-- Loading that fails leaves sessions untouched exactly if the keys that it leaves in them are not other ones. -/
theorem failed_load_untouched_iff {Key : Type} (ops : RatchetOps Key Bytes) (crypto : Crypto) :
    (∀ (stack : PreKeyMessageReader) (session : Session Key) (account : Account) (oneTimeKeyMessage : Bytes),
      (∀ after, session.createInboundSession ops stack account oneTimeKeyMessage = some (after, none) →
          session.Untouched after) ↔
        ∀ raw, Session.b64Input oneTimeKeyMessage = .ok raw →
          ¬ Session.LeavesKeys ops stack session account none raw) ∧
    (∀ (stack : PreKeyMessageReader) (session : Session Key) (account : Account)
      (theirIdentityKey oneTimeKeyMessage : Bytes),
      (∀ after, session.createInboundSessionFrom ops stack account theirIdentityKey oneTimeKeyMessage =
          some (after, none) → session.Untouched after) ↔
        ∀ identityKey raw, Session.b64Key theirIdentityKey = some identityKey →
          Session.b64Input oneTimeKeyMessage = .ok raw →
            ¬ Session.LeavesKeys ops stack session account (some identityKey) raw) ∧
    (∀ (session : InboundGroupSession) (sessionKey : Bytes),
      (∀ after, session.init crypto sessionKey = (after, none) → session.Untouched after) ↔
        ¬ InboundGroupSession.LeavesKey crypto session sessionKey) ∧
    ∀ (session after : InboundGroupSession) (sessionKey : Bytes),
      session.importSession crypto sessionKey = (after, none) → session.Untouched after :=
  ⟨fun _ _ _ _ => Session.createInboundSession_untouched_iff ops,
    fun _ _ _ theirIdentityKey _ => Session.createInboundSessionFrom_untouched_iff ops theirIdentityKey,
    InboundGroupSession.init_untouched_iff crypto,
    fun _ _ _ failed => InboundGroupSession.importSession_untouched crypto _ _ failed⟩

/-- Three keys of ones and an empty message. -/
def emptyPreKeyMessage : Bytes :=
  [3, oneTimeKeyIdTag, 32] ++ List.replicate 32 1 ++ [baseKeyTag, 32] ++ List.replicate 32 1 ++
    [identityKeyTag, 32] ++ List.replicate 32 1 ++ [messageTag, 0]

/-- A key share of ones, with a signature of zeros. -/
def unsignedShare : Bytes := OutboundGroupSession.sessionKeyVersion :: List.replicate 164 1 ++ List.replicate 64 0

theorem failed_load_not_untouched :
    (¬ ∀ (stack : PreKeyMessageReader) (session after : Session (Block 32)) (account : Account)
        (oneTimeKeyMessage : Bytes),
      session.createInboundSession (olmRatchet Crypto.plain ⟨0, ⟨0, false⟩, none, none⟩) stack account
        oneTimeKeyMessage = some (after, none) → session.Untouched after) ∧
    ¬ ∀ (session after : InboundGroupSession) (sessionKey : Bytes),
      session.init Crypto.plain sessionKey = (after, none) → session.Untouched after := by
  constructor
  · intro untouched
    have fine := (Session.createInboundSession_untouched_iff
      (olmRatchet Crypto.plain ⟨0, ⟨0, false⟩, none, none⟩)).mp
      (fun after => untouched ⟨0, none, none, none, none⟩ Session.plainSession after clearAccount
        (encodeBase64 emptyPreKeyMessage)) _ (Session.b64Input_encodeBase64 _)
    refine fine ⟨⟨by decide, by decide, rfl, Or.inr ?_⟩, ?_⟩
    · show List.find? _ (OlmList.new _).toList = none
      rw [OlmList.toList_new]
      rfl
    · intro same
      have := congrArg (fun session => session.bobOneTimeKey.val.head?) same
      revert this
      decide
  · intro untouched
    have fine := (InboundGroupSession.init_untouched_iff Crypto.plain .clear (encodeBase64 unsignedShare)).mp
      fun after => untouched .clear after _
    have decoded : decodeBase64 (encodeBase64 unsignedShare) = unsignedShare := decode_encodeBase64 _
    refine fine ⟨⟨?_, ?_⟩, ?_, ?_⟩
    · rw [length_encodeBase64, decodeBase64Length_encode]
      rfl
    · rw [decoded]
      rfl
    · rw [decoded, ← Bool.not_eq_true]
      intro signed
      have same := congrArg (fun block : Block 64 => block.val.head?) (Crypto.plain_verify_iff.mp signed)
      revert same
      decide
    · rw [decoded]
      intro same
      have := congrArg (fun session => session.signingKey.val.head?) same
      revert this
      decide

end RubyOlm
