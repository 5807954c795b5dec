import RubyOlm.DoubleRatchet.Decrypted
import RubyOlm.Session.Reading

/-!
# Errors of a session

Which errors the calls of a session can end with below base64, and what decides between them.
-/

namespace RubyOlm

open Payload

namespace Ratchet

variable {Key Msg : Type} (ops : RatchetOps Key Msg) {ratchet ratchet' : Ratchet Key} {input : Msg}
  {maxPlaintextLength : Nat}

/-- The errors of `decrypt`, besides that of the MAC. -/
def FieldError (error : OlmErrorCode) : Prop :=
  error = .badMessageVersion ∨ error = .badMessageFormat ∨ error = .outputBufferTooSmall

theorem checkReader_error {error : OlmErrorCode} (failed : checkReader ops input maxPlaintextLength = .error error) :
    FieldError error := by
  unfold checkReader at failed
  dsimp only at failed
  split at failed
  · exact .inl (Except.error.inj failed).symm
  · split at failed
    · split at failed
      · exact .inr (.inr (Except.error.inj failed).symm)
      · split at failed
        · exact .inr (.inl (Except.error.inj failed).symm)
        · cases failed
    · exact .inr (.inl (Except.error.inj failed).symm)

/-- The version is looked at before anything else. -/
theorem checkReader_version_iff :
    checkReader ops input maxPlaintextLength = .error .badMessageVersion ↔
      (ops.wire.read input).version ≠ protocolVersion := by
  unfold checkReader
  dsimp only
  split
  · rename_i wrong
    exact ⟨fun _ => wrong, fun _ => rfl⟩
  · rename_i right
    refine ⟨fun failed => ?_, fun wrong => absurd wrong right⟩
    split at failed
    · split at failed
      · cases failed
      · split at failed <;> cases failed
    · cases failed

theorem decrypt_fieldError (failed : ratchet.decrypt ops input maxPlaintextLength = (ratchet', none)) :
    FieldError ratchet'.lastError ∨ ratchet'.lastError = .badMessageMac :=
  (decrypt_error ops failed).imp (checkReader_error ops) And.right

theorem decryptMaxPlaintextLength_error
    (failed : ratchet.decryptMaxPlaintextLength ops input = (ratchet', none)) : ratchet'.lastError = .badMessageFormat := by
  unfold decryptMaxPlaintextLength at failed
  split at failed
  · obtain ⟨rfl, -⟩ := Prod.mk.inj failed
    rfl
  · cases failed

end Ratchet

namespace Session

variable {Key : Type} (ops : RatchetOps Key Bytes) {stack : PreKeyMessageReader} {session session' : Session Key}
  {account : Account} {theirIdentityKey : Option PublicKey} {raw : Bytes} {messageType : MessageType}
  {maxPlaintextLength : Nat}

/-! ### A session from a message -/

theorem receiveRatchetKey_error (failed : session.receiveRatchetKey ops account raw = (session', none)) :
    session'.lastError = .badMessageFormat ∨ session'.lastError = .badMessageKeyId := by
  unfold receiveRatchetKey at failed
  split at failed
  · obtain ⟨rfl, -⟩ := Prod.mk.inj failed
    exact .inl rfl
  · split at failed
    · obtain ⟨rfl, -⟩ := Prod.mk.inj failed
      exact .inl rfl
    · split at failed
      · obtain ⟨rfl, -⟩ := Prod.mk.inj failed
        exact .inr rfl
      · cases failed

theorem newInboundSession_error
    (failed : session.newInboundSession ops stack account theirIdentityKey raw = some (session', none)) :
    session'.lastError = .badMessageFormat ∨ session'.lastError = .badMessageKeyId := by
  unfold newInboundSession at failed
  dsimp only at failed
  split at failed
  · obtain ⟨rfl, -⟩ := Prod.mk.inj (Option.some.inj failed)
    exact .inl rfl
  · split at failed
    · obtain ⟨rfl, -⟩ := Prod.mk.inj (Option.some.inj failed)
      exact .inr rfl
    · split at failed
      · exact receiveRatchetKey_error ops (Option.some.inj failed)
      · cases failed

/-! ### The message that the ratchet gets -/

/-- The message itself, or what a pre-key message carries. -/
def Carries (messageType : MessageType) (raw body : Bytes) : Prop :=
  match messageType with
  | .message => body = raw
  | .preKey => lastRead (payloadOf raw 0) messageTag = some (.string body.length body)

theorem messageBody_eq_some_iff {body : Bytes} :
    messageBody stack messageType raw = some body ↔ Carries messageType raw body := by
  cases messageType with
  | message => exact Option.some_inj.trans eq_comm
  | preKey =>
    have text := found_iff (decodeOneTimeKeyMessage_inside raw stack).message (Nat.le_refl _)
      (preKeyReports stack raw).message body
    exact Option.map_eq_some_iff.trans text

variable {ops}

theorem decrypt_fails_iff {body : Bytes} (carries : Carries messageType raw body) {error : OlmErrorCode} :
    Fails Session.lastError error (session.decrypt ops stack messageType raw maxPlaintextLength) ↔
      Fails Ratchet.lastError error (session.ratchet.decrypt ops body maxPlaintextLength) := by
  unfold decrypt
  rw [messageBody_eq_some_iff.mpr carries]
  dsimp only
  rcases session.ratchet.decrypt ops body maxPlaintextLength with ⟨ratchet, _ | plaintext⟩
  · exact Iff.rfl
  · exact ⟨fun fails => (nomatch fails.1), fun fails => (nomatch fails.1)⟩

theorem decrypt_of_bodyless (bodyless : ∀ body, ¬ Carries messageType raw body) :
    session.decrypt ops stack messageType raw maxPlaintextLength =
      ({ session with lastError := .badMessageFormat }, none) := by
  have none : messageBody stack messageType raw = none := by
    rw [Option.eq_none_iff_forall_ne_some]
    exact fun body found => bodyless body (messageBody_eq_some_iff.mp found)
  rw [decrypt, none]

theorem decrypt_error (failed : session.decrypt ops stack messageType raw maxPlaintextLength = (session', none)) :
    Ratchet.FieldError session'.lastError ∨ session'.lastError = .badMessageMac := by
  unfold decrypt at failed
  split at failed
  · obtain ⟨rfl, -⟩ := Prod.mk.inj failed
    exact .inl (.inr (.inl rfl))
  · split at failed
    · rename_i ratchet' ended
      obtain ⟨rfl, -⟩ := Prod.mk.inj failed
      exact Ratchet.decrypt_fieldError ops ended
    · cases failed

theorem decryptMaxPlaintextLength_error
    (failed : session.decryptMaxPlaintextLength ops stack messageType raw = (session', none)) :
    session'.lastError = .badMessageFormat := by
  unfold decryptMaxPlaintextLength at failed
  split at failed
  · obtain ⟨rfl, -⟩ := Prod.mk.inj failed
    rfl
  · split at failed
    · rename_i ratchet' ended
      obtain ⟨rfl, -⟩ := Prod.mk.inj failed
      exact Ratchet.decryptMaxPlaintextLength_error ops ended
    · cases failed

end Session

end RubyOlm
