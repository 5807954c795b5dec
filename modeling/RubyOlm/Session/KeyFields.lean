import RubyOlm.Session.Atomic

/-!
# The key fields of a pre-key message

What `new_inbound_session` reads out of a message before it looks at the message inside. The check of the
fields lets the identity key be missing when the caller supplies one, the copy that follows does not: it
reads through the null pointer that the decoder has left.
-/

namespace RubyOlm.Session

variable {Key : Type} (ops : RatchetOps Key Bytes)

/-- The key fields that `new_inbound_session` compares and copies, as the decoder has left them. -/
def keyFieldsRead (stack : PreKeyMessageReader) (theirIdentityKey : Option PublicKey) (oneTimeKeyMessage : Bytes) :
    List (Option Span) :=
  let reader := decodeOneTimeKeyMessage stack oneTimeKeyMessage
  if !checkMessageFields reader theirIdentityKey.isSome then []
  else
    let compared := if reader.identityKey.isSome && theirIdentityKey.isSome then [reader.identityKey] else []
    if !theirIdentityKey.all fun key => sameKey oneTimeKeyMessage reader.identityKey key then compared
    else compared ++ [reader.identityKey, reader.baseKey, reader.oneTimeKey]

/-- Only key fields that were found with 32 bytes are read, the call answers, and a supplied identity key is
the one the session gets. -/
structure InboundTotal (stack : PreKeyMessageReader) (session : Session Key) (localAccount : Account)
    (theirIdentityKey : Option PublicKey) (oneTimeKeyMessage : Bytes) : Prop where
  found : ∀ field ∈ keyFieldsRead stack theirIdentityKey oneTimeKeyMessage, ∃ span, field = some span ∧ span.length = 32
  answers : ∃ answer, session.newInboundSession ops stack localAccount theirIdentityKey oneTimeKeyMessage = some answer
  identity : ∀ session', session.newInboundSession ops stack localAccount theirIdentityKey oneTimeKeyMessage =
    some (session', some ()) → ∀ key ∈ theirIdentityKey, session'.aliceIdentityKey = key

/-- The caller supplies an identity key, and the message has everything but one. -/
structure LacksIdentityKey (stack : PreKeyMessageReader) (theirIdentityKey : Option PublicKey)
    (oneTimeKeyMessage : Bytes) : Prop where
  supplied : theirIdentityKey.isSome
  missing : (decodeOneTimeKeyMessage stack oneTimeKeyMessage).identityKey = none
  message : (decodeOneTimeKeyMessage stack oneTimeKeyMessage).message.isSome
  baseKey : isKey (decodeOneTimeKeyMessage stack oneTimeKeyMessage).baseKey
  oneTimeKey : isKey (decodeOneTimeKeyMessage stack oneTimeKeyMessage).oneTimeKey

theorem isKey_iff {field : Option Span} : isKey field ↔ ∃ span, field = some span ∧ span.length = 32 := by
  cases field <;> simp [isKey]

/-- What the check lets through: keys of 32 bytes, but for an identity key that may be missing. -/
theorem checkMessageFields_iff {reader : PreKeyMessageReader} {haveTheirIdentityKey : Bool} :
    checkMessageFields reader haveTheirIdentityKey ↔
      (isKey reader.identityKey ∨ reader.identityKey = none ∧ haveTheirIdentityKey) ∧ reader.message.isSome ∧
        isKey reader.baseKey ∧ isKey reader.oneTimeKey := by
  unfold checkMessageFields
  rcases reader.identityKey with _ | span
  · cases haveTheirIdentityKey <;> simp [isKey, and_assoc]
  · cases haveTheirIdentityKey <;> simp [isKey, and_assoc]

/-- Past the copies the identity key of the session stays what it is. -/
theorem receiveRatchetKey_identity (session : Session Key) (localAccount : Account) (message : Bytes) :
    (session.receiveRatchetKey ops localAccount message).1.aliceIdentityKey = session.aliceIdentityKey := by
  unfold receiveRatchetKey
  split
  · rfl
  · split
    · rfl
    · split <;> rfl

theorem not_total_of_lacks {stack : PreKeyMessageReader} {session : Session Key} {localAccount : Account}
    {theirIdentityKey : Option PublicKey} {oneTimeKeyMessage : Bytes}
    (lacks : LacksIdentityKey stack theirIdentityKey oneTimeKeyMessage) :
    none ∈ keyFieldsRead stack theirIdentityKey oneTimeKeyMessage ∧
      session.newInboundSession ops stack localAccount theirIdentityKey oneTimeKeyMessage = none := by
  have checked : checkMessageFields (decodeOneTimeKeyMessage stack oneTimeKeyMessage) theirIdentityKey.isSome :=
    checkMessageFields_iff.mpr ⟨.inr ⟨lacks.missing, lacks.supplied⟩, lacks.message, lacks.baseKey, lacks.oneTimeKey⟩
  have same (key : PublicKey) : sameKey oneTimeKeyMessage (none : Option Span) key = true := rfl
  constructor
  · simp [keyFieldsRead, checked, lacks.missing, same]
  · simp [newInboundSession, checked, lacks.missing, same]

/-- The fields of a message that passes the check and does not lack its identity key. -/
theorem fields_of_checked {reader : PreKeyMessageReader} {haveTheirIdentityKey : Bool}
    (checked : checkMessageFields reader haveTheirIdentityKey)
    (whole : ¬ (haveTheirIdentityKey ∧ reader.identityKey = none)) :
    ∃ identityKey baseKey oneTimeKey message, reader.identityKey = some identityKey ∧ identityKey.length = 32 ∧
      reader.baseKey = some baseKey ∧ baseKey.length = 32 ∧ reader.oneTimeKey = some oneTimeKey ∧
      oneTimeKey.length = 32 ∧ reader.message = some message := by
  obtain ⟨identity, message, base, oneTime⟩ := checkMessageFields_iff.mp checked
  obtain ⟨message, message_found⟩ := Option.isSome_iff_exists.mp message
  obtain ⟨baseKey, base_found, base_length⟩ := isKey_iff.mp base
  obtain ⟨oneTimeKey, oneTime_found, oneTime_length⟩ := isKey_iff.mp oneTime
  rcases identity with identity | ⟨missing, supplied⟩
  · obtain ⟨identityKey, identity_found, identity_length⟩ := isKey_iff.mp identity
    exact ⟨identityKey, baseKey, oneTimeKey, message, identity_found, identity_length, base_found, base_length,
      oneTime_found, oneTime_length, message_found⟩
  · exact absurd ⟨supplied, missing⟩ whole

theorem inboundTotal_iff (stack : PreKeyMessageReader) (session : Session Key) (localAccount : Account)
    (theirIdentityKey : Option PublicKey) (oneTimeKeyMessage : Bytes) :
    InboundTotal ops stack session localAccount theirIdentityKey oneTimeKeyMessage ↔
      ¬ LacksIdentityKey stack theirIdentityKey oneTimeKeyMessage := by
  constructor
  · intro total lacks
    obtain ⟨answer, answered⟩ := total.answers
    rw [(not_total_of_lacks ops lacks).2] at answered
    cases answered
  · intro whole
    by_cases checked : checkMessageFields (decodeOneTimeKeyMessage stack oneTimeKeyMessage) theirIdentityKey.isSome
    · have present : ¬ (theirIdentityKey.isSome = true ∧
          (decodeOneTimeKeyMessage stack oneTimeKeyMessage).identityKey = none) := by
        rintro ⟨supplied, missing⟩
        obtain ⟨-, message, base, oneTime⟩ := checkMessageFields_iff.mp checked
        exact whole ⟨supplied, missing, message, base, oneTime⟩
      obtain ⟨identityKey, baseKey, oneTimeKey, message, identity_found, identity_length, base_found, base_length,
        oneTime_found, oneTime_length, message_found⟩ := fields_of_checked checked present
      have all_found {field : Option Span} (mem : field ∈ [some identityKey, some baseKey, some oneTimeKey]) :
          ∃ span, field = some span ∧ span.length = 32 := by
        simp only [List.mem_cons, List.not_mem_nil, or_false] at mem
        rcases mem with rfl | rfl | rfl
        · exact ⟨_, rfl, identity_length⟩
        · exact ⟨_, rfl, base_length⟩
        · exact ⟨_, rfl, oneTime_length⟩
      have only_found (field : Option Span) (mem : field ∈ keyFieldsRead stack theirIdentityKey oneTimeKeyMessage) :
          ∃ span, field = some span ∧ span.length = 32 := by
        simp only [keyFieldsRead, checked, identity_found, base_found, oneTime_found] at mem
        apply all_found
        grind
      by_cases same : theirIdentityKey.all fun key => sameKey oneTimeKeyMessage (some identityKey) key
      · have copied : session.newInboundSession ops stack localAccount theirIdentityKey oneTimeKeyMessage =
            some (receiveRatchetKey ops { session with
              aliceIdentityKey := Block.load 32 (identityKey.read oneTimeKeyMessage)
              aliceBaseKey := Block.load 32 (baseKey.read oneTimeKeyMessage)
              bobOneTimeKey := Block.load 32 (oneTimeKey.read oneTimeKeyMessage) } localAccount
              (message.read oneTimeKeyMessage)) := by
          simp [newInboundSession, checked, identity_found, base_found, oneTime_found, message_found, same]
        refine ⟨only_found, ⟨_, copied⟩, ?_⟩
        intro session' done key supplied
        rw [copied] at done
        have identity := congrArg (·.1.aliceIdentityKey) (Option.some.inj done)
        simp only [receiveRatchetKey_identity] at identity
        rw [← identity]
        obtain rfl := Option.mem_def.mp supplied
        simpa [sameKey] using same
      · have refused : session.newInboundSession ops stack localAccount theirIdentityKey oneTimeKeyMessage =
            some ({ session with lastError := .badMessageKeyId }, none) := by
          simp [newInboundSession, checked, identity_found, same]
        refine ⟨only_found, ⟨_, refused⟩, ?_⟩
        intro session' done
        rw [refused] at done
        cases done
    · refine ⟨?_, ⟨({ session with lastError := .badMessageFormat }, none), ?_⟩, ?_⟩
      · simp [keyFieldsRead, checked]
      · simp [newInboundSession, checked]
      · simp [newInboundSession, checked]

/-- A one-time key, a base key and an empty message, without an identity key. -/
def withoutIdentityKey : Bytes :=
  [3, oneTimeKeyIdTag, 32] ++ List.replicate 32 0 ++ [baseKeyTag, 32] ++ List.replicate 32 0 ++ [messageTag, 0]

theorem inbound_not_total :
    ¬ InboundTotal (olmRatchet Crypto.plain ⟨0, ⟨0, false⟩, none, none⟩) ⟨0, none, none, none, none⟩ plainSession
      clearAccount (some (Block.zero 32)) withoutIdentityKey := by
  intro total
  obtain ⟨answer, answered⟩ := total.answers
  have lacks : LacksIdentityKey ⟨0, none, none, none, none⟩ (some (Block.zero 32)) withoutIdentityKey :=
    ⟨rfl, by decide, by decide, by decide, by decide⟩
  rw [(not_total_of_lacks _ lacks).2] at answered
  cases answered

end RubyOlm.Session
