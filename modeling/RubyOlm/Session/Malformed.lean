import RubyOlm.DoubleRatchet.Decrypted
import RubyOlm.Session.Establishment
import RubyOlm.Session.Reading

/-!
# Malformed messages

The decoders give up at the end of what they can read, and nobody asks whether that was the end of the message. So a
malformed message is refused when something is missing from what was read of it, and taken like any other otherwise.
-/

namespace RubyOlm

open Payload

/-- Everything that a normal message is decrypted with. -/
structure MessageRead (payload : Bytes) (counter : UInt32) (ratchetKey ciphertext : Bytes) : Prop where
  counter : lastRead payload counterTag = some (.int counter)
  ratchetKey : lastRead payload ratchetKeyTag = some (.string ratchetKey.length ratchetKey)
  ciphertext : lastRead payload ciphertextTag = some (.string ciphertext.length ciphertext)

variable (crypto : Crypto) (reader : MessageReader)

/-! ### A ratchet and its messages -/

namespace Ratchet

/-- What was read of a message is what its ratchet gets. -/
theorem messageRead_iff (input : Bytes) (counter : UInt32) (ratchetKey ciphertext : Bytes) :
    MessageRead (payloadOf input cipherMacLength) counter ratchetKey ciphertext ↔
      ((olmRatchet crypto reader).wire.read input).counter = ⟨counter, true⟩ ∧
        ((olmRatchet crypto reader).wire.read input).ratchetKey = some ratchetKey ∧
        ((olmRatchet crypto reader).wire.read input).ciphertext = some ciphertext := by
  have reports := messageReports reader input cipherMacLength
  have inside := decodeMessage_inside input reader cipherMacLength
  have le : input.length - cipherMacLength ≤ input.length := Nat.sub_le _ _
  have number : (decodeMessage reader input cipherMacLength).counter = ⟨counter, true⟩ ↔
      lastRead (payloadOf input cipherMacLength) counterTag = some (.int counter) := by
    rw [← reports.counter]
    rcases (decodeMessage reader input cipherMacLength).counter with ⟨value, _ | _⟩
    · simp [intReport]
    · simp [intReport]
  rw [wire_read, number, read_eq_some_iff inside.ratchetKey le reports.ratchetKey,
    read_eq_some_iff inside.ciphertext le reports.ciphertext]
  exact ⟨fun read => ⟨read.counter, read.ratchetKey, read.ciphertext⟩, fun both => ⟨both.1, both.2.1, both.2.2⟩⟩

/-- The check of a message finds fault with its format exactly if the version is right, and of a counter, a ratchet
key and a ciphertext that there is room for not all were read, with a ratchet key of 32 bytes. -/
theorem checkReader_format_iff {input : Bytes} (some : cipherMacLength < input.length) (maxPlaintextLength : Nat) :
    checkReader (olmRatchet crypto reader) input maxPlaintextLength = .error .badMessageFormat ↔
      input.getD 0 0 = protocolVersion ∧
        ∀ counter ratchetKey ciphertext, MessageRead (payloadOf input cipherMacLength) counter ratchetKey ciphertext →
          ciphertext.length ≤ maxPlaintextLength ∧ ratchetKey.length ≠ 32 := by
  have version : ((olmRatchet crypto reader).wire.read input).version = input.getD 0 0 := by
    rw [wire_read, decodeMessage_version reader input cipherMacLength, if_pos some]
  simp only [messageRead_iff crypto reader]
  rw [checkReader]
  obtain ⟨reading, hreading⟩ : ∃ reading, (olmRatchet crypto reader).wire.read input = reading := ⟨_, rfl⟩
  rw [hreading] at version ⊢
  obtain ⟨_, ⟨value, has⟩, ratchetKey, ciphertext⟩ := reading
  obtain rfl := version
  dsimp only
  by_cases right : input.getD 0 0 = protocolVersion
  · rw [if_neg (not_not.mpr right)]
    simp only [right, true_and]
    cases has with
    | false => simp
    | true =>
      rcases ratchetKey with _ | ratchetKey
      · simp
      rcases ciphertext with _ | ciphertext
      · simp
      have room : (olmRatchet crypto reader).wire.maxPlaintextLength ciphertext.length = ciphertext.length := rfl
      dsimp only
      rw [room]
      split
      · rename_i short
        simp only [Except.error.injEq, reduceCtorEq, false_iff]
        intro all
        have fits := (all value ratchetKey ciphertext ⟨rfl, rfl, rfl⟩).1
        omega
      · rename_i fits
        split
        · rename_i length
          simp only [true_iff]
          rintro value ratchetKey ciphertext ⟨-, same, same'⟩
          obtain rfl := Option.some.inj same
          obtain rfl := Option.some.inj same'
          exact ⟨by omega, length⟩
        · rename_i length
          simp only [reduceCtorEq, false_iff]
          intro all
          exact length (all value ratchetKey ciphertext ⟨rfl, rfl, rfl⟩).2
  · rw [if_pos right]
    exact ⟨by rintro ⟨⟩, fun both => absurd both.1 right⟩

/-- And so does `decrypt`. -/
theorem decrypt_format_iff (ratchet : Ratchet (Block 32)) {input : Bytes} (some : cipherMacLength < input.length)
    (maxPlaintextLength : Nat) :
    Fails Ratchet.lastError .badMessageFormat
        (ratchet.decrypt (olmRatchet crypto reader) input maxPlaintextLength) ↔
      input.getD 0 0 = protocolVersion ∧
        ∀ counter ratchetKey ciphertext, MessageRead (payloadOf input cipherMacLength) counter ratchetKey ciphertext →
          ciphertext.length ≤ maxPlaintextLength ∧ ratchetKey.length ≠ 32 := by
  rw [decrypt_refused_iff _ (by decide), checkReader_format_iff crypto reader some]

end Ratchet

/-! ### A session and its messages -/

namespace Session

variable {stack : PreKeyMessageReader} {session : Session (Block 32)} {account : Account}

theorem receiveRatchetKey_format_iff (message : Bytes) :
    Fails Session.lastError .badMessageFormat
        (session.receiveRatchetKey (olmRatchet crypto reader) account message) ↔
      ¬ ∃ ratchetKey, KeyRead (payloadOf message cipherMacLength) ratchetKeyTag ratchetKey := by
  have reports := messageReports reader message cipherMacLength
  have inside := decodeMessage_inside message reader cipherMacLength
  have key := read_eq_some_iff inside.ratchetKey (Nat.sub_le _ _) reports.ratchetKey
  have read (ratchetKey : PublicKey) : KeyRead (payloadOf message cipherMacLength) ratchetKeyTag ratchetKey ↔
      (decodeMessage reader message cipherMacLength).ratchetKey.map (fun span => span.read message) =
        some ratchetKey.val := by
    rw [key, Block.length_val]
    rfl
  simp only [read]
  rw [receiveRatchetKey, Ratchet.wire_read]
  generalize (decodeMessage reader message cipherMacLength).ratchetKey.map (fun span => span.read message) = ratchetKey
  rcases ratchetKey with _ | ratchetKey
  · simp [Fails]
  dsimp only
  split
  · rename_i length
    refine ⟨fun _ => ?_, fun _ => ⟨rfl, rfl⟩⟩
    rintro ⟨key, same⟩
    rw [Option.some.inj same] at length
    exact length key.property
  · rename_i length
    rw [ne_eq, not_not] at length
    have there : ∃ key : PublicKey, some ratchetKey = some key.val := ⟨⟨ratchetKey, length⟩, rfl⟩
    split
    · exact ⟨fun fails => (nomatch fails.2), fun absent => absurd there absent⟩
    · exact ⟨fun fails => (nomatch fails.1), fun absent => absurd there absent⟩

/-- Everything that a session is made from, and a ratchet key of 32 bytes in the message. -/
def InboundRead (raw : Bytes) : Prop :=
  ∃ identityKey baseKey oneTimeKey message ratchetKey,
    PreKeyRead (payloadOf raw 0) identityKey baseKey oneTimeKey message ∧
      KeyRead (payloadOf message cipherMacLength) ratchetKeyTag ratchetKey

theorem newInboundSession_format_iff (raw : Bytes) :
    (∃ answer, session.newInboundSession (olmRatchet crypto reader) stack account none raw = some answer ∧
        Fails Session.lastError .badMessageFormat answer) ↔ ¬ InboundRead raw := by
  by_cases read : ∃ identityKey baseKey oneTimeKey message,
      PreKeyRead (payloadOf raw 0) identityKey baseKey oneTimeKey message
  · obtain ⟨identityKey, baseKey, oneTimeKey, message, read⟩ := read
    rw [newInboundSession_of_read _ read (by rintro _ ⟨⟩)]
    simp only [Option.some.injEq, exists_eq_left']
    rw [receiveRatchetKey_format_iff]
    refine not_congr ⟨?_, ?_⟩
    · rintro ⟨ratchetKey, key⟩
      exact ⟨_, _, _, _, ratchetKey, read, key⟩
    · rintro ⟨_, _, _, message', ratchetKey, read', key⟩
      rw [← read.message_unique read'] at key
      exact ⟨ratchetKey, key⟩
  · rw [newInboundSession_of_unread _ read]
    refine ⟨fun _ => ?_, fun _ => ⟨_, rfl, rfl, rfl⟩⟩
    rintro ⟨identityKey, baseKey, oneTimeKey, message, -, whole, -⟩
    exact read ⟨identityKey, baseKey, oneTimeKey, message, whole⟩

/-! ### Both -/

/-- A malformed message gets through exactly if everything that a session or a plaintext is made from was read of it. -/
theorem malformed_message (account : Account) (session : Session (Block 32)) (stack : PreKeyMessageReader) :
    (∀ text raw, b64Input text = .ok raw → Malformed (payloadOf raw 0) →
      ((∃ answer, session.createInboundSession (olmRatchet crypto reader) stack account text = some answer ∧
          Fails Session.lastError .badMessageFormat answer) ↔ ¬ InboundRead raw) ∧
        ((session.olmMatchesInboundSession stack text).2 ≠ some true ↔ ¬ OwnKeysRead session raw)) ∧
      ∀ (ratchet : Ratchet (Block 32)) input maxPlaintextLength, Malformed (payloadOf input cipherMacLength) →
        (Fails Ratchet.lastError .badMessageFormat
            (ratchet.decrypt (olmRatchet crypto reader) input maxPlaintextLength) ↔
          input.getD 0 0 = protocolVersion ∧
            ∀ counter ratchetKey ciphertext, MessageRead (payloadOf input cipherMacLength) counter ratchetKey ciphertext →
              ciphertext.length ≤ maxPlaintextLength ∧ ratchetKey.length ≠ 32) := by
  constructor
  · intro text raw decoded _
    constructor
    · rw [createInboundSession, decoded]
      exact newInboundSession_format_iff crypto reader raw
    · rw [olmMatchesInboundSession, decoded, ← matchesInboundSession_own_iff stack]
      simp only [ne_eq, Option.some.injEq]
  · intro ratchet input maxPlaintextLength malformed
    have some : cipherMacLength < input.length := by
      apply Nat.lt_of_not_le
      intro short
      exact malformed [] (payloadOf_nil short)
    exact ratchet.decrypt_format_iff crypto reader some maxPlaintextLength

def zeroAccount : Account := clearAccount.generateOneTimeKey Crypto.plain []

/-- A message under the first key of a chain, with a byte behind its fields that begins nothing. -/
def trailingBody : Bytes :=
  let ciphertext := sealedCiphertext Crypto.plain.kdf Crypto.plain.aes (ascii "OLM_KEYS") [] [104]
  let authenticated := messageHeader protocolVersion 0 (Block.zero 32).val ciphertext.length ++ ciphertext ++ [7]
  authenticated ++ truncatedMac Crypto.plain.kdf (deriveKeys Crypto.plain.kdf (ascii "OLM_KEYS") []) authenticated

def trailingMessage : Bytes :=
  preKeyHeader protocolVersion (Block.zero 32).val (Block.zero 32).val (Block.zero 32).val trailingBody.length ++
    trailingBody ++ [7]

theorem trailingBody_malformed : Malformed (payloadOf trailingBody cipherMacLength) := by
  refine malformed_of_rest (by decide +kernel) (malformed_of_rest (by decide +kernel)
    (malformed_of_rest (by decide +kernel) ?_))
  exact malformed_of_unread (by decide +kernel) (by decide +kernel)

theorem trailingMessage_malformed : Malformed (payloadOf trailingMessage 0) := by
  refine malformed_of_rest (by decide +kernel) (malformed_of_rest (by decide +kernel)
    (malformed_of_rest (by decide +kernel) (malformed_of_rest (by decide +kernel) ?_)))
  exact malformed_of_unread (by decide +kernel) (by decide +kernel)

/-- Both of its layers are malformed, and still it begins a session, matches it and is decrypted. -/
theorem trailing_message_accepted :
    (b64Input (encodeBase64 trailingMessage) = .ok trailingMessage ∧ Malformed (payloadOf trailingMessage 0) ∧
      messageBody clearReader .preKey trailingMessage = some trailingBody ∧
      Malformed (payloadOf trailingBody cipherMacLength)) ∧
    ∃ session, (new clearSession).createInboundSession (olmRatchet Crypto.plain ⟨0, ⟨0, false⟩, none, none⟩) clearReader
        zeroAccount (encodeBase64 trailingMessage) = some (session, some ()) ∧
      (session.olmMatchesInboundSession clearReader (encodeBase64 trailingMessage)).2 = some true ∧
      (session.ratchet.decrypt (olmRatchet Crypto.plain ⟨0, ⟨0, false⟩, none, none⟩) trailingBody 16).2 = some [104] := by
  refine ⟨⟨b64Input_encodeBase64 _, trailingMessage_malformed, by decide +kernel, trailingBody_malformed⟩, ?_⟩
  have received : ((new clearSession).createInboundSession (olmRatchet Crypto.plain ⟨0, ⟨0, false⟩, none, none⟩)
      clearReader zeroAccount (encodeBase64 trailingMessage)).map (fun result => (result.2,
        (result.1.olmMatchesInboundSession clearReader (encodeBase64 trailingMessage)).2,
        (result.1.ratchet.decrypt (olmRatchet Crypto.plain ⟨0, ⟨0, false⟩, none, none⟩) trailingBody 16).2)) =
      some (some (), some true, some [104]) := by
    decide +kernel
  obtain ⟨⟨session, result⟩, created, values⟩ := Option.map_eq_some_iff.mp received
  obtain ⟨rfl, rest⟩ := Prod.mk.inj values
  obtain ⟨answers, opened⟩ := Prod.mk.inj rest
  exact ⟨session, created, answers, opened⟩

end Session

end RubyOlm
