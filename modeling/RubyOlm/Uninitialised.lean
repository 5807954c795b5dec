import RubyOlm.Group.Inbound
import RubyOlm.Session.Version

/-!
# What was on the stack

The decoders write into structures that nobody has cleared, and return early from a message that is no longer than its
trailers. The callers then look at the version all the same.
-/

namespace RubyOlm

open Payload

/-- What the caller of a function gets and finds as the error. -/
def observed {Object Result : Type} (lastError : Object → OlmErrorCode) (answer : Object × Option Result) :
    Option Result × OlmErrorCode := (answer.2, lastError answer.1)

/-! ### The reader of a ratchet -/

namespace Ratchet

variable (crypto : Crypto) (reader reader' : MessageReader)

theorem advanceWhile_reader : advanceWhile (olmRatchet crypto reader) = advanceWhile (olmRatchet crypto reader') := by
  funext counter fuel
  induction fuel with
  | zero => rfl
  | succ fuel ih =>
    funext chainKey
    rw [advanceWhile, advanceWhile, ih]
    rfl

theorem skipWhile_reader : skipWhile (olmRatchet crypto reader) = skipWhile (olmRatchet crypto reader') := by
  funext counter fuel
  induction fuel with
  | zero => rfl
  | succ fuel ih =>
    funext chain skipped
    rw [skipWhile, skipWhile, ih]
    rfl

theorem trySkipped_reader : trySkipped (olmRatchet crypto reader) = trySkipped (olmRatchet crypto reader') := by
  funext checked maxPlaintextLength skipped
  induction skipped with
  | nil => rfl
  | cons key skipped ih =>
    rw [trySkipped, trySkipped, ih]
    rfl

/-- Behind the checks nothing is left of the reader. -/
theorem decryptChecked_reader (ratchet : Ratchet (Block 32)) (checked : CheckedReader Bytes) (maxPlaintextLength : Nat) :
    ratchet.decryptChecked (olmRatchet crypto reader) checked maxPlaintextLength =
      ratchet.decryptChecked (olmRatchet crypto reader') checked maxPlaintextLength := by
  unfold decryptChecked verifyMacAndDecryptForNewChain verifyMacAndDecryptForExistingChain moveChain
  rw [advanceWhile_reader crypto reader reader', skipWhile_reader crypto reader reader',
    trySkipped_reader crypto reader reader']
  rfl

variable {input : Bytes} (maxPlaintextLength : Nat)

/-- A message with a version has everything that is looked at from its own bytes. -/
theorem checkReader_reader (long : cipherMacLength < input.length) :
    checkReader (olmRatchet crypto reader) input maxPlaintextLength =
      checkReader (olmRatchet crypto reader') input maxPlaintextLength := by
  have version (reader : MessageReader) : (decodeMessage reader input cipherMacLength).version = input.getD 0 0 := by
    rw [decodeMessage_version, if_pos long]
  have le : input.length - cipherMacLength ≤ input.length := Nat.sub_le _ _
  have key (reader : MessageReader) := read_eq_some_iff (decodeMessage_inside input reader cipherMacLength).ratchetKey le
    (messageReports reader input cipherMacLength).ratchetKey
  have text (reader : MessageReader) := read_eq_some_iff (decodeMessage_inside input reader cipherMacLength).ciphertext le
    (messageReports reader input cipherMacLength).ciphertext
  have counter := (messageReports reader input cipherMacLength).counter.trans
    (messageReports reader' input cipherMacLength).counter.symm
  rw [checkReader, checkReader, wire_read, wire_read, version, version, Option.ext fun content =>
    (key reader content).trans (key reader' content).symm, Option.ext fun content =>
    (text reader content).trans (text reader' content).symm]
  generalize (decodeMessage reader input cipherMacLength).counter = field at counter ⊢
  generalize (decodeMessage reader' input cipherMacLength).counter = field' at counter ⊢
  obtain ⟨value, _ | _⟩ := field <;> obtain ⟨value', _ | _⟩ := field'
  · rfl
  · cases counter
  · cases counter
  · obtain rfl : value = value' := Value.int.inj (Option.some.inj counter)
    rfl

/-- Without a version the reader decides which error it is. -/
theorem checkReader_short (short : input.length ≤ cipherMacLength) :
    checkReader (olmRatchet crypto reader) input maxPlaintextLength =
      .error (if reader.version = protocolVersion then .badMessageFormat else .badMessageVersion) := by
  have counter := (messageReports reader input cipherMacLength).counter
  rw [payloadOf_nil short] at counter
  rw [checkReader, wire_read, decodeMessage_version, if_neg (Nat.not_lt.mpr short)]
  generalize (decodeMessage reader input cipherMacLength).counter = field at counter ⊢
  obtain ⟨value, _ | _⟩ := field
  · dsimp only
    by_cases same : reader.version = protocolVersion
    · rw [if_neg (not_not.mpr same), if_pos same]
    · rw [if_pos same, if_neg same]
  · cases counter

theorem decrypt_reader (ratchet : Ratchet (Block 32)) (long : cipherMacLength < input.length) :
    ratchet.decrypt (olmRatchet crypto reader) input maxPlaintextLength =
      ratchet.decrypt (olmRatchet crypto reader') input maxPlaintextLength := by
  rw [decrypt, decrypt, checkReader_reader crypto reader reader' maxPlaintextLength long]
  split
  · rfl
  · exact decryptChecked_reader crypto reader reader' ratchet _ maxPlaintextLength

end Ratchet

/-! ### `olm_decrypt` -/

namespace Session

variable (crypto : Crypto) {session : Session (Block 32)} {messageType : MessageType} {raw : Bytes}
  (maxPlaintextLength : Nat)

/-- The message that the ratchet gets, if it gets any, is long enough to have a version. -/
def Versioned (messageType : MessageType) (raw : Bytes) : Prop :=
  ∀ body, Carries messageType raw body → cipherMacLength < body.length

theorem decrypt_reader (versioned : Versioned messageType raw) (reader reader' : MessageReader)
    (stack stack' : PreKeyMessageReader) :
    session.decrypt (olmRatchet crypto reader) stack messageType raw maxPlaintextLength =
      session.decrypt (olmRatchet crypto reader') stack' messageType raw maxPlaintextLength := by
  by_cases body : ∃ body, Carries messageType raw body
  · obtain ⟨body, carries⟩ := body
    rw [decrypt, decrypt, messageBody_eq_some_iff.mpr carries, messageBody_eq_some_iff.mpr carries]
    dsimp only
    rw [Ratchet.decrypt_reader crypto reader reader' maxPlaintextLength session.ratchet (versioned body carries)]
  · rw [decrypt_of_bodyless (not_exists.mp body), decrypt_of_bodyless (not_exists.mp body)]

/-- The error of a message without a version. -/
theorem decrypt_short {body : Bytes} (carries : Carries messageType raw body) (short : body.length ≤ cipherMacLength)
    (reader : MessageReader) (stack : PreKeyMessageReader) :
    Fails Session.lastError (if reader.version = Ratchet.protocolVersion then .badMessageFormat else .badMessageVersion)
      (session.decrypt (olmRatchet crypto reader) stack messageType raw maxPlaintextLength) := by
  rw [decrypt_fails_iff carries, Ratchet.decrypt_refused_iff, Ratchet.checkReader_short crypto reader _ short]
  split <;> decide

theorem olmDecrypt_independent_iff (text : Bytes) :
    (∀ reader reader' stack stack',
      observed Session.lastError
          (session.olmDecrypt (olmRatchet crypto reader) stack messageType text maxPlaintextLength) =
        observed Session.lastError
          (session.olmDecrypt (olmRatchet crypto reader') stack' messageType text maxPlaintextLength)) ↔
      ∀ raw, b64Input text = .ok raw → Versioned messageType raw := by
  constructor
  · intro independent raw decoded body carries
    by_contra long
    have short : body.length ≤ cipherMacLength := Nat.le_of_not_lt long
    obtain ⟨-, supported⟩ := @decrypt_short crypto session _ _ maxPlaintextLength _ carries short
      ⟨3, ⟨0, false⟩, none, none⟩ clearReader
    obtain ⟨-, unsupported⟩ := @decrypt_short crypto session _ _ maxPlaintextLength _ carries short
      ⟨0, ⟨0, false⟩, none, none⟩ clearReader
    have same := independent ⟨3, ⟨0, false⟩, none, none⟩ ⟨0, ⟨0, false⟩, none, none⟩ clearReader clearReader
    rw [olmDecrypt, olmDecrypt, decoded] at same
    have errors := supported.symm.trans ((congrArg Prod.snd same).trans unsupported)
    exact absurd errors (by decide)
  · intro versioned reader reader' stack stack'
    rw [olmDecrypt, olmDecrypt]
    cases decoded : b64Input text with
    | error error => rfl
    | ok raw =>
      dsimp only
      rw [decrypt_reader crypto maxPlaintextLength (versioned raw decoded) reader reader' stack stack']

end Session

/-! ### Group messages -/

theorem decodeGroupMessage_stack {input : Bytes} {macLength signatureLength : Nat}
    (long : (macLength + signatureLength) % 2 ^ 64 < input.length) (stack stack' : GroupMessageResults) :
    decodeGroupMessage stack input macLength signatureLength =
      decodeGroupMessage stack' input macLength signatureLength := by
  rw [decodeGroupMessage, decodeGroupMessage, if_neg (by omega), if_neg (by omega), if_neg (by omega),
    if_neg (by omega)]

/-- The results of a decoder that has only a version. -/
def GroupMessageResults.versionOnly (version : UInt8) : GroupMessageResults := ⟨version, 0, false, none⟩

namespace InboundGroupSession

variable (crypto : Crypto) (session : InboundGroupSession) {message : Bytes} (maxPlaintextLength : Nat)

/-- Of a message without a byte in front of its MAC and signature nothing is decoded. -/
theorem decoded_short (short : message.length ≤ cipherMacLength + signatureLength) (stack : GroupMessageResults) :
    decodeGroupMessage stack message (megolmCipher crypto).macLength signatureLength =
      { stack with messageIndex := 0, ciphertext := none } := decodeGroupMessage_none message short

theorem decryptRaw_short (short : message.length ≤ cipherMacLength + signatureLength) (stack : GroupMessageResults) :
    session.decryptRaw crypto stack message maxPlaintextLength =
      ⟨{ session with
          lastError := if stack.version = protocolVersion then .badMessageFormat else .badMessageVersion }, none, none⟩ := by
  rw [decryptRaw, decoded_short crypto short]
  dsimp only
  by_cases same : stack.version = protocolVersion
  · rw [if_neg (not_not.mpr same), if_pos same]
    cases stack.hasMessageIndex <;> rfl
  · rw [if_pos same, if_neg same]

theorem decryptMaxPlaintextLengthRaw_short (short : message.length ≤ cipherMacLength + signatureLength)
    (stack : GroupMessageResults) :
    session.decryptMaxPlaintextLengthRaw crypto stack message =
      ({ session with
          lastError := if stack.version = protocolVersion then .badMessageFormat else .badMessageVersion }, none) := by
  rw [decryptMaxPlaintextLengthRaw, decoded_short crypto short]
  dsimp only
  by_cases same : stack.version = protocolVersion
  · rw [if_neg (not_not.mpr same), if_pos same]
  · rw [if_pos same, if_neg same]

theorem decoded_stack (long : cipherMacLength + signatureLength < message.length) (stack stack' : GroupMessageResults) :
    decodeGroupMessage stack message (megolmCipher crypto).macLength signatureLength =
      decodeGroupMessage stack' message (megolmCipher crypto).macLength signatureLength :=
  decodeGroupMessage_stack long stack stack'

theorem decryptRaw_stack (long : cipherMacLength + signatureLength < message.length) (stack stack' : GroupMessageResults) :
    session.decryptRaw crypto stack message maxPlaintextLength =
      session.decryptRaw crypto stack' message maxPlaintextLength := by
  rw [decryptRaw, decryptRaw, decoded_stack crypto long stack stack']

theorem decryptMaxPlaintextLengthRaw_stack (long : cipherMacLength + signatureLength < message.length)
    (stack stack' : GroupMessageResults) :
    session.decryptMaxPlaintextLengthRaw crypto stack message =
      session.decryptMaxPlaintextLengthRaw crypto stack' message := by
  rw [decryptMaxPlaintextLengthRaw, decryptMaxPlaintextLengthRaw, decoded_stack crypto long stack stack']

/-- What is observed of a call depends on the version that was there if and only if the message has none. -/
theorem long_of_independent_iff {Observed : Type} {observed : GroupMessageResults → Observed}
    {error : Observed → OlmErrorCode}
    (short : message.length ≤ cipherMacLength + signatureLength → ∀ stack, error (observed stack) =
      if stack.version = protocolVersion then .badMessageFormat else .badMessageVersion)
    (long : cipherMacLength + signatureLength < message.length → ∀ stack stack', observed stack = observed stack') :
    (∀ stack stack', observed stack = observed stack') ↔ cipherMacLength + signatureLength < message.length := by
  refine ⟨fun independent => ?_, long⟩
  by_contra versionless
  have errors := congrArg error (independent (.versionOnly 3) (.versionOnly 0))
  rw [short (Nat.le_of_not_lt versionless), short (Nat.le_of_not_lt versionless)] at errors
  exact absurd errors (by decide)

theorem decrypt_independent_iff (text : Bytes) :
    (∀ stack stack' : GroupMessageResults,
      ((session.decrypt crypto stack text maxPlaintextLength).plaintext,
          (session.decrypt crypto stack text maxPlaintextLength).session.lastError) =
        ((session.decrypt crypto stack' text maxPlaintextLength).plaintext,
          (session.decrypt crypto stack' text maxPlaintextLength).session.lastError)) ↔
      ∀ raw, Session.b64Input text = .ok raw → cipherMacLength + signatureLength < raw.length := by
  unfold Session.b64Input decrypt
  cases decodeBase64Length text.length with
  | none => exact ⟨fun _ _ decoded => (nomatch decoded), fun _ _ _ => rfl⟩
  | some length =>
    simp only [Except.ok.injEq, forall_eq']
    apply @long_of_independent_iff _ _ _ Prod.snd
    · intro short stack
      rw [decryptRaw_short crypto session _ short]
    · intro long stack stack'
      rw [decryptRaw_stack crypto session _ long stack stack']

theorem decryptMaxPlaintextLength_independent_iff (text : Bytes) :
    (∀ stack stack' : GroupMessageResults,
      observed InboundGroupSession.lastError (session.decryptMaxPlaintextLength crypto stack text) =
        observed InboundGroupSession.lastError (session.decryptMaxPlaintextLength crypto stack' text)) ↔
      ∀ raw, Session.b64Input text = .ok raw → cipherMacLength + signatureLength < raw.length := by
  unfold Session.b64Input decryptMaxPlaintextLength
  cases decodeBase64Length text.length with
  | none => exact ⟨fun _ _ decoded => (nomatch decoded), fun _ _ _ => rfl⟩
  | some length =>
    simp only [Except.ok.injEq, forall_eq']
    apply @long_of_independent_iff _ _ _ Prod.snd
    · intro short stack
      rw [observed, decryptMaxPlaintextLengthRaw_short crypto session short]
    · intro long stack stack'
      rw [decryptMaxPlaintextLengthRaw_stack crypto session long stack stack']

end InboundGroupSession

/-- The calls give the same for all that can have been on the stack exactly if the message is long enough, where it is
decoded, to have a byte in front of its trailers. -/
theorem independent_of_stack_iff (crypto : Crypto) (text : Bytes) (maxPlaintextLength : Nat) :
    (∀ (session : Session (Block 32)) messageType,
      (∀ reader reader' stack stack',
        observed Session.lastError
            (session.olmDecrypt (olmRatchet crypto reader) stack messageType text maxPlaintextLength) =
          observed Session.lastError
            (session.olmDecrypt (olmRatchet crypto reader') stack' messageType text maxPlaintextLength)) ↔
        ∀ raw, Session.b64Input text = .ok raw → Session.Versioned messageType raw) ∧
    ∀ session : InboundGroupSession,
      ((∀ stack stack' : GroupMessageResults,
        ((session.decrypt crypto stack text maxPlaintextLength).plaintext,
            (session.decrypt crypto stack text maxPlaintextLength).session.lastError) =
          ((session.decrypt crypto stack' text maxPlaintextLength).plaintext,
            (session.decrypt crypto stack' text maxPlaintextLength).session.lastError)) ↔
        ∀ raw, Session.b64Input text = .ok raw → cipherMacLength + signatureLength < raw.length) ∧
      ((∀ stack stack' : GroupMessageResults,
        observed InboundGroupSession.lastError (session.decryptMaxPlaintextLength crypto stack text) =
          observed InboundGroupSession.lastError (session.decryptMaxPlaintextLength crypto stack' text)) ↔
        ∀ raw, Session.b64Input text = .ok raw → cipherMacLength + signatureLength < raw.length) :=
  ⟨fun session _ => session.olmDecrypt_independent_iff crypto maxPlaintextLength text, fun session =>
    ⟨session.decrypt_independent_iff crypto maxPlaintextLength text,
      session.decryptMaxPlaintextLength_independent_iff crypto text⟩⟩

/-- Nothing at all, as a message of either kind. -/
theorem empty_message_depends :
    (Session.clearSession.olmDecrypt (olmRatchet Crypto.plain ⟨3, ⟨0, false⟩, none, none⟩) Session.clearReader .message [] 0).1.lastError ≠
        (Session.clearSession.olmDecrypt (olmRatchet Crypto.plain ⟨0, ⟨0, false⟩, none, none⟩) Session.clearReader .message [] 0).1.lastError ∧
      (InboundGroupSession.clear.decrypt Crypto.plain (.versionOnly 3) [] 0).session.lastError ≠
        (InboundGroupSession.clear.decrypt Crypto.plain (.versionOnly 0) [] 0).session.lastError ∧
      (InboundGroupSession.clear.decryptMaxPlaintextLength Crypto.plain (.versionOnly 3) []).1.lastError ≠
        (InboundGroupSession.clear.decryptMaxPlaintextLength Crypto.plain (.versionOnly 0) []).1.lastError := by
  decide +kernel

end RubyOlm
