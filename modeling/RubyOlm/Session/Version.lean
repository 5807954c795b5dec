import RubyOlm.Session.Errors
import RubyOlm.Session.Establishment

/-!
# Messages of another version

Only `Ratchet::decrypt` looks at a version, and it looks at that of the message it gets. A pre-key message has a version of
its own around that one, which nobody looks at.
-/

namespace RubyOlm.Session

open Payload

variable (crypto : Crypto) (reader : MessageReader) {session : Session (Block 32)} {stack : PreKeyMessageReader}
  {raw : Bytes} {messageType : MessageType}

/-- The version that is looked at: a message that is no longer than its MAC has none, and then the reader still has
what was in it before. -/
def versionSeen (reader : MessageReader) (body : Bytes) : UInt8 :=
  if cipherMacLength < body.length then body.getD 0 0 else reader.version

theorem decrypt_version_iff (maxPlaintextLength : Nat) :
    Fails Session.lastError .badMessageVersion
        (session.decrypt (olmRatchet crypto reader) stack messageType raw maxPlaintextLength) ↔
      ∃ body, Carries messageType raw body ∧ versionSeen reader body ≠ Ratchet.protocolVersion := by
  have checked (body : Bytes) (carries : Carries messageType raw body) : Fails Session.lastError .badMessageVersion
      (session.decrypt (olmRatchet crypto reader) stack messageType raw maxPlaintextLength) ↔
        versionSeen reader body ≠ Ratchet.protocolVersion := by
    have version := decodeMessage_version reader body cipherMacLength
    rw [decrypt_fails_iff carries, Ratchet.decrypt_refused_iff _ (by decide), Ratchet.checkReader_version_iff]
    exact not_congr (by rw [versionSeen, ← version]; rfl)
  constructor
  · intro fails
    by_cases body : ∃ body, Carries messageType raw body
    · obtain ⟨body, carries⟩ := body
      exact ⟨body, carries, (checked body carries).mp fails⟩
    · rw [decrypt_of_bodyless (not_exists.mp body)] at fails
      cases fails.2
  · rintro ⟨body, carries, wrong⟩
    exact (checked body carries).mpr wrong

/-- What each call does with a message whose version is not supported. -/
theorem unsupported_version_iff {text : Bytes} (decoded : b64Input text = .ok raw) (_some : raw ≠ [])
    (unsupported : raw.getD 0 0 ≠ protocolVersion) (session : Session (Block 32)) (account : Account)
    (stack : PreKeyMessageReader) :
    (¬ ∃ answer, session.createInboundSession (olmRatchet crypto reader) stack account text = some answer ∧
        Fails Session.lastError .badMessageVersion answer) ∧
      (∀ theirIdentityKey, ¬ ∃ answer, session.createInboundSessionFrom (olmRatchet crypto reader) stack account
          theirIdentityKey text = some answer ∧ Fails Session.lastError .badMessageVersion answer) ∧
      ¬ Fails Session.lastError .badMessageVersion (session.olmMatchesInboundSession stack text) ∧
      (∀ theirIdentityKey, ¬ Fails Session.lastError .badMessageVersion
          (session.olmMatchesInboundSessionFrom stack theirIdentityKey text)) ∧
      (∀ messageType, ¬ Fails Session.lastError .badMessageVersion
          (session.olmDecryptMaxPlaintextLength (olmRatchet crypto reader) stack messageType text)) ∧
      ∀ maxPlaintextLength,
        (Fails Session.lastError .badMessageVersion
            (session.olmDecrypt (olmRatchet crypto reader) stack .message text maxPlaintextLength) ↔
          cipherMacLength < raw.length ∨ reader.version ≠ Ratchet.protocolVersion) ∧
        (Fails Session.lastError .badMessageVersion
            (session.olmDecrypt (olmRatchet crypto reader) stack .preKey text maxPlaintextLength) ↔
          ∃ body, lastRead (payloadOf raw 0) messageTag = some (.string body.length body) ∧
            versionSeen reader body ≠ Ratchet.protocolVersion) := by
  have never {answer : Session (Block 32)}
      (either : answer.lastError = .badMessageFormat ∨ answer.lastError = .badMessageKeyId) :
      answer.lastError ≠ .badMessageVersion := by
    rcases either with error | error <;> rw [error] <;> decide
  refine ⟨?_, ?_, ?_, ?_, ?_, ?_⟩
  · rintro ⟨answer, created, fails⟩
    obtain ⟨after, rfl, error⟩ := fails_iff.mp fails
    rw [createInboundSession, decoded] at created
    exact never (newInboundSession_error _ created) error
  · rintro theirIdentityKey ⟨answer, created, fails⟩
    obtain ⟨after, rfl, error⟩ := fails_iff.mp fails
    rw [createInboundSessionFrom, decoded] at created
    split at created
    · obtain ⟨rfl, -⟩ := Prod.mk.inj (Option.some.inj created)
      cases error
    · exact never (newInboundSession_error _ created) error
  · rintro ⟨none, -⟩
    rw [olmMatchesInboundSession, decoded] at none
    cases none
  · intro theirIdentityKey fails
    obtain ⟨after, ended, error⟩ := fails_iff.mp fails
    rw [olmMatchesInboundSessionFrom, decoded] at ended
    split at ended
    · obtain ⟨rfl, -⟩ := Prod.mk.inj ended
      cases error
    · cases ended
  · intro messageType fails
    obtain ⟨after, ended, error⟩ := fails_iff.mp fails
    rw [olmDecryptMaxPlaintextLength, decoded] at ended
    rw [decryptMaxPlaintextLength_error ended] at error
    cases error
  · intro maxPlaintextLength
    rw [olmDecrypt, olmDecrypt, decoded]
    constructor
    · refine (decrypt_version_iff crypto reader maxPlaintextLength).trans ?_
      have own : (∃ body, Carries .message raw body ∧ versionSeen reader body ≠ Ratchet.protocolVersion) ↔
          versionSeen reader raw ≠ Ratchet.protocolVersion := exists_eq_left
      rw [own, versionSeen]
      split
      · rename_i long
        exact ⟨fun _ => .inl long, fun _ => unsupported⟩
      · rename_i short
        exact ⟨.inr, fun either => either.resolve_left short⟩
    · exact decrypt_version_iff crypto reader maxPlaintextLength

/-- A pre-key message of version 4 around a message of version 3. -/
def versionFourMessage : Bytes :=
  let body := olmMessage Crypto.plain (Block.zero 32) 0 (Block.zero 32) []
  preKeyHeader 4 (Block.zero 32).val (Block.zero 32).val (Block.zero 32).val body.length ++ body

/-- It begins a session, matches it and is decrypted. -/
theorem version_four_accepted :
    b64Input (encodeBase64 versionFourMessage) = .ok versionFourMessage ∧
    versionFourMessage.getD 0 0 ≠ protocolVersion ∧
    ∃ session, (new clearSession).createInboundSession (olmRatchet Crypto.plain ⟨0, ⟨0, false⟩, none, none⟩) clearReader
        (clearAccount.generateOneTimeKey Crypto.plain []) (encodeBase64 versionFourMessage) = some (session, some ()) ∧
      (session.olmMatchesInboundSession clearReader (encodeBase64 versionFourMessage)).2 = some true ∧
      (session.olmDecryptMaxPlaintextLength (olmRatchet Crypto.plain ⟨0, ⟨0, false⟩, none, none⟩) clearReader .preKey
        (encodeBase64 versionFourMessage)).2 = some 16 ∧
      (session.olmDecrypt (olmRatchet Crypto.plain ⟨0, ⟨0, false⟩, none, none⟩) clearReader .preKey
        (encodeBase64 versionFourMessage) 16).2 = some [] := by
  refine ⟨b64Input_encodeBase64 _, by decide +kernel, ?_⟩
  have received : ((new clearSession).createInboundSession (olmRatchet Crypto.plain ⟨0, ⟨0, false⟩, none, none⟩)
      clearReader (clearAccount.generateOneTimeKey Crypto.plain []) (encodeBase64 versionFourMessage)).map (fun result =>
        (result.2, (result.1.olmMatchesInboundSession clearReader (encodeBase64 versionFourMessage)).2,
          (result.1.olmDecryptMaxPlaintextLength (olmRatchet Crypto.plain ⟨0, ⟨0, false⟩, none, none⟩) clearReader .preKey
            (encodeBase64 versionFourMessage)).2,
          (result.1.olmDecrypt (olmRatchet Crypto.plain ⟨0, ⟨0, false⟩, none, none⟩) clearReader .preKey
            (encodeBase64 versionFourMessage) 16).2)) =
      some (some (), some true, some 16, some []) := by
    decide +kernel
  obtain ⟨⟨session, result⟩, created, values⟩ := Option.map_eq_some_iff.mp received
  obtain ⟨rfl, rest⟩ := Prod.mk.inj values
  obtain ⟨answers, rest⟩ := Prod.mk.inj rest
  obtain ⟨length, opened⟩ := Prod.mk.inj rest
  exact ⟨session, created, answers, length, opened⟩

/-- A normal message of version 4, with as many bytes as a MAC has: what is said of it is up to the reader. -/
theorem version_four_unread :
    Fails Session.lastError .badMessageVersion
        (clearSession.olmDecrypt (olmRatchet Crypto.plain ⟨0, ⟨0, false⟩, none, none⟩) clearReader .message
          (encodeBase64 [4, 0, 0, 0, 0, 0, 0, 0]) 0) ∧
      ¬ Fails Session.lastError .badMessageVersion
        (clearSession.olmDecrypt (olmRatchet Crypto.plain ⟨3, ⟨0, false⟩, none, none⟩) clearReader .message
          (encodeBase64 [4, 0, 0, 0, 0, 0, 0, 0]) 0) := by
  have decoded := b64Input_encodeBase64 [4, 0, 0, 0, 0, 0, 0, 0]
  have seen (reader : MessageReader) := (unsupported_version_iff Crypto.plain reader decoded (List.cons_ne_nil _ _)
    (by decide) clearSession clearAccount clearReader).2.2.2.2.2 0
  constructor
  · exact (seen _).1.mpr (.inr (by decide))
  · intro fails
    rcases (seen _).1.mp fails with long | wrong
    · exact absurd long (by decide)
    · exact wrong rfl

end RubyOlm.Session
