import RubyOlm.Message.Reading
import RubyOlm.Session.KeyFields

/-!
# What a session reads of a message

`new_inbound_session` and `matches_inbound_session` over the payload of a message, whatever its bytes are: with the last
value of each tag instead of the spans that the decoder reports.
-/

namespace RubyOlm

open Payload

variable {Key : Type}

/-! ### What is read of a pre-key message -/

def KeyRead (payload : Bytes) (tag : UInt8) (key : PublicKey) : Prop := lastRead payload tag = some (.string 32 key.val)

/-- Everything that a session is made from. -/
structure PreKeyRead (payload : Bytes) (identityKey baseKey oneTimeKey : PublicKey) (message : Bytes) : Prop where
  identityKey : KeyRead payload identityKeyTag identityKey
  baseKey : KeyRead payload baseKeyTag baseKey
  oneTimeKey : KeyRead payload oneTimeKeyIdTag oneTimeKey
  message : lastRead payload messageTag = some (.string message.length message)

theorem PreKeyRead.message_unique {payload : Bytes}
    {identityKey baseKey oneTimeKey identityKey' baseKey' oneTimeKey' : PublicKey} {message message' : Bytes}
    (read : PreKeyRead payload identityKey baseKey oneTimeKey message)
    (read' : PreKeyRead payload identityKey' baseKey' oneTimeKey' message') : message = message' := by
  have same := read.message.symm.trans read'.message
  simp only [Option.some.injEq, Value.string.injEq] at same
  exact same.2

theorem length_read {input : Bytes} {fin : Nat} {field : Option Span} (inside : StringInside fin field)
    (le : fin ≤ input.length) {span : Span} (found : field = some span) : (span.read input).length = span.length := by
  have fits := (inside span found).fits
  rw [Span.read, List.length_take, List.length_drop]
  omega

/-- A string field that is there, by its bytes. -/
theorem found_iff {input payload : Bytes} {fin : Nat} {field : Option Span} {tag : UInt8}
    (inside : StringInside fin field) (le : fin ≤ input.length) (reads : stringReport input field = lastRead payload tag)
    (content : Bytes) : (∃ span, field = some span ∧ span.read input = content) ↔
      lastRead payload tag = some (.string content.length content) := by
  rw [← reads]
  constructor
  · rintro ⟨span, found, rfl⟩
    rw [length_read inside le found, found]
    rfl
  · intro there
    obtain ⟨span, found, same⟩ := Option.map_eq_some_iff.mp there
    injection same with _ same
    exact ⟨span, found, same⟩

/-- The bytes of a field, as the ratchet gets them. -/
theorem read_eq_some_iff {input payload : Bytes} {fin : Nat} {field : Option Span} {tag : UInt8}
    (inside : StringInside fin field) (le : fin ≤ input.length) (reads : stringReport input field = lastRead payload tag)
    (content : Bytes) : field.map (fun span => span.read input) = some content ↔
      lastRead payload tag = some (.string content.length content) := by
  rw [← found_iff inside le reads, Option.map_eq_some_iff]

/-- A field for a key has a key exactly if one was read. -/
theorem isKey_read_iff {input payload : Bytes} {fin : Nat} {field : Option Span} {tag : UInt8}
    (inside : StringInside fin field) (le : fin ≤ input.length) (reads : stringReport input field = lastRead payload tag) :
    Session.isKey field ↔ ∃ key, KeyRead payload tag key := by
  have found (key : PublicKey) := found_iff inside le reads key.val
  simp only [Block.length_val] at found
  rw [Session.isKey_iff]
  constructor
  · rintro ⟨span, there, length⟩
    have read := (length_read inside le there).trans length
    exact ⟨⟨span.read input, read⟩, (found ⟨span.read input, read⟩).mp ⟨span, there, rfl⟩⟩
  · rintro ⟨key, there⟩
    obtain ⟨span, there, same⟩ := (found key).mpr there
    refine ⟨span, there, ?_⟩
    rw [← length_read inside le there, same, key.property]

/-- The reports of the decoder, one by one. -/
structure MessageReports (input : Bytes) (reader : MessageReader) (payload : Bytes) : Prop where
  ratchetKey : stringReport input reader.ratchetKey = lastRead payload ratchetKeyTag
  counter : intReport reader.counter = lastRead payload counterTag
  ciphertext : stringReport input reader.ciphertext = lastRead payload ciphertextTag

theorem messageReports (reader : MessageReader) (input : Bytes) (macLength : Nat) :
    MessageReports input (decodeMessage reader input macLength) (payloadOf input macLength) := by
  have reads := decodeMessage_reads reader input macLength
  simp only [messageReport, messageTags, List.map_cons, List.map_nil, List.cons.injEq, and_true] at reads
  exact ⟨reads.1, reads.2.1, reads.2.2⟩

theorem Ratchet.wire_read (crypto : Crypto) (reader : MessageReader) (input : Bytes) :
    (olmRatchet crypto reader).wire.read input =
      ⟨(decodeMessage reader input cipherMacLength).version, (decodeMessage reader input cipherMacLength).counter,
        (decodeMessage reader input cipherMacLength).ratchetKey.map fun span => span.read input,
        (decodeMessage reader input cipherMacLength).ciphertext.map fun span => span.read input⟩ := rfl

section PreKey

variable (stack : PreKeyMessageReader) (raw : Bytes)

/-- The reports of the decoder, one by one. -/
structure PreKeyReports (reader : PreKeyMessageReader) (payload : Bytes) : Prop where
  oneTimeKey : stringReport raw reader.oneTimeKey = lastRead payload oneTimeKeyIdTag
  baseKey : stringReport raw reader.baseKey = lastRead payload baseKeyTag
  identityKey : stringReport raw reader.identityKey = lastRead payload identityKeyTag
  message : stringReport raw reader.message = lastRead payload messageTag

theorem preKeyReports : PreKeyReports raw (decodeOneTimeKeyMessage stack raw) (payloadOf raw 0) := by
  have reads := decodeOneTimeKeyMessage_reads stack raw
  simp only [preKeyMessageReport, preKeyMessageTags, List.map_cons, List.map_nil, List.cons.injEq, and_true] at reads
  exact ⟨reads.1, reads.2.1, reads.2.2.1, reads.2.2.2⟩

theorem checkMessageFields_read_iff :
    Session.checkMessageFields (decodeOneTimeKeyMessage stack raw) false ↔
      ∃ identityKey baseKey oneTimeKey message, PreKeyRead (payloadOf raw 0) identityKey baseKey oneTimeKey message := by
  have reports := preKeyReports stack raw
  have inside := decodeOneTimeKeyMessage_inside raw stack
  have le := Nat.le_refl raw.length
  have text := found_iff inside.message le reports.message
  rw [Session.checkMessageFields_iff, isKey_read_iff inside.identityKey le reports.identityKey,
    isKey_read_iff inside.baseKey le reports.baseKey, isKey_read_iff inside.oneTimeKey le reports.oneTimeKey]
  constructor
  · rintro ⟨⟨identityKey, identity⟩ | ⟨-, ⟨⟩⟩, there, ⟨baseKey, base⟩, ⟨oneTimeKey, oneTime⟩⟩
    obtain ⟨span, found⟩ := Option.isSome_iff_exists.mp there
    exact ⟨identityKey, baseKey, oneTimeKey, span.read raw, identity, base, oneTime, (text _).mp ⟨span, found, rfl⟩⟩
  · rintro ⟨identityKey, baseKey, oneTimeKey, message, read⟩
    obtain ⟨span, found, -⟩ := (text message).mpr read.message
    refine ⟨.inl ⟨identityKey, read.identityKey⟩, ?_, ⟨baseKey, read.baseKey⟩, ⟨oneTimeKey, read.oneTimeKey⟩⟩
    rw [found]
    rfl

variable {raw} {identityKey baseKey oneTimeKey : PublicKey} {message : Bytes}

/-- The spans of what was read. -/
theorem PreKeyRead.spans (read : PreKeyRead (payloadOf raw 0) identityKey baseKey oneTimeKey message)
    (stack : PreKeyMessageReader) :
    ∃ identity base oneTime text, (decodeOneTimeKeyMessage stack raw).identityKey = some identity ∧
      identity.read raw = identityKey.val ∧ (decodeOneTimeKeyMessage stack raw).baseKey = some base ∧
      base.read raw = baseKey.val ∧ (decodeOneTimeKeyMessage stack raw).oneTimeKey = some oneTime ∧
      oneTime.read raw = oneTimeKey.val ∧ (decodeOneTimeKeyMessage stack raw).message = some text ∧
      text.read raw = message := by
  have reports := preKeyReports stack raw
  have inside := decodeOneTimeKeyMessage_inside raw stack
  have le := Nat.le_refl raw.length
  have key {tag : UInt8} {key : PublicKey} (found : KeyRead (payloadOf raw 0) tag key) :
      lastRead (payloadOf raw 0) tag = some (.string key.val.length key.val) := by
    rw [Block.length_val]
    exact found
  obtain ⟨identity, there₁, same₁⟩ := (found_iff inside.identityKey le reports.identityKey _).mpr (key read.identityKey)
  obtain ⟨base, there₂, same₂⟩ := (found_iff inside.baseKey le reports.baseKey _).mpr (key read.baseKey)
  obtain ⟨oneTime, there₃, same₃⟩ := (found_iff inside.oneTimeKey le reports.oneTimeKey _).mpr (key read.oneTimeKey)
  obtain ⟨text, there₄, same₄⟩ := (found_iff inside.message le reports.message _).mpr read.message
  exact ⟨identity, base, oneTime, text, there₁, same₁, there₂, same₂, there₃, same₃, there₄, same₄⟩

end PreKey

namespace Session

theorem checkMessageFields_of_read (stack : PreKeyMessageReader) {raw : Bytes}
    {identityKey baseKey oneTimeKey : PublicKey} {message : Bytes}
    (read : PreKeyRead (payloadOf raw 0) identityKey baseKey oneTimeKey message) (haveTheirIdentityKey : Bool) :
    checkMessageFields (decodeOneTimeKeyMessage stack raw) haveTheirIdentityKey := by
  have checked := (checkMessageFields_read_iff stack raw).mpr ⟨_, _, _, _, read⟩
  rw [checkMessageFields_iff] at checked ⊢
  obtain ⟨identity | ⟨-, ⟨⟩⟩, rest⟩ := checked
  exact ⟨.inl identity, rest⟩

variable (ops : RatchetOps Key Bytes) {stack : PreKeyMessageReader} {session : Session Key} {account : Account}
  {raw : Bytes} {identityKey baseKey oneTimeKey : PublicKey} {message : Bytes}

/-- A message with everything, for a caller whose identity key, if any, is the one in it. -/
theorem newInboundSession_of_read (read : PreKeyRead (payloadOf raw 0) identityKey baseKey oneTimeKey message)
    {theirIdentityKey : Option PublicKey} (same : ∀ key ∈ theirIdentityKey, key = identityKey) :
    session.newInboundSession ops stack account theirIdentityKey raw =
      some (receiveRatchetKey ops
        { session with aliceIdentityKey := identityKey, aliceBaseKey := baseKey, bobOneTimeKey := oneTimeKey } account
        message) := by
  obtain ⟨identity, base, oneTime, text, there₁, same₁, there₂, same₂, there₃, same₃, there₄, same₄⟩ :=
    read.spans stack
  have checked := checkMessageFields_of_read stack read theirIdentityKey.isSome
  have known : theirIdentityKey.all (fun key => sameKey raw (some identity) key) = true := by
    rw [Option.all_eq_true]
    rintro key rfl
    rw [sameKey, Option.all_some, same₁, Block.load_val]
    exact decide_eq_true (same key rfl).symm
  rw [newInboundSession]
  simp only [checked, Bool.not_true, Bool.false_eq_true, if_false, there₁, there₂, there₃, there₄, known, same₁, same₂,
    same₃, same₄, Block.load_val]

theorem newInboundSession_of_unread
    (unread : ¬ ∃ identityKey baseKey oneTimeKey message,
      PreKeyRead (payloadOf raw 0) identityKey baseKey oneTimeKey message) :
    session.newInboundSession ops stack account none raw =
      some ({ session with lastError := .badMessageFormat }, none) := by
  rw [← checkMessageFields_read_iff stack raw, Bool.not_eq_true] at unread
  rw [newInboundSession]
  simp only [Option.isSome_none, unread, Bool.not_false, if_true]

/-- The comparison of a session with a message that has everything. -/
theorem matchesInboundSession_of_read
    (read : PreKeyRead (payloadOf raw 0) identityKey baseKey oneTimeKey message) (theirIdentityKey : Option PublicKey) :
    session.matchesInboundSession stack theirIdentityKey raw ↔
      identityKey = session.aliceIdentityKey ∧ (∀ key ∈ theirIdentityKey, key = session.aliceIdentityKey) ∧
        baseKey = session.aliceBaseKey ∧ oneTimeKey = session.bobOneTimeKey := by
  obtain ⟨identity, base, oneTime, text, there₁, same₁, there₂, same₂, there₃, same₃, -, -⟩ :=
    read.spans stack
  have checked := checkMessageFields_of_read stack read theirIdentityKey.isSome
  rw [matchesInboundSession]
  simp only [checked, there₁, there₂, there₃, sameKey, Option.all_some, same₁, same₂, same₃, Block.load_val,
    Bool.true_and, Bool.and_eq_true, decide_eq_true_eq, Option.all_eq_true, and_assoc, Option.mem_def]

/-- The session's own keys, and a message behind them. -/
def OwnKeysRead (session : Session Key) (raw : Bytes) : Prop :=
  ∃ message, PreKeyRead (payloadOf raw 0) session.aliceIdentityKey session.aliceBaseKey session.bobOneTimeKey message

theorem matchesInboundSession_own_iff (stack : PreKeyMessageReader) (raw : Bytes) :
    session.matchesInboundSession stack none raw ↔ OwnKeysRead session raw := by
  constructor
  · intro answers
    have checked := (Bool.and_eq_true_iff.mp answers).1
    obtain ⟨identityKey, baseKey, oneTimeKey, message, read⟩ := (checkMessageFields_read_iff stack raw).mp checked
    obtain ⟨rfl, -, rfl, rfl⟩ := (matchesInboundSession_of_read read none).mp answers
    exact ⟨message, read⟩
  · rintro ⟨message, read⟩
    exact (matchesInboundSession_of_read read none).mpr ⟨rfl, by rintro _ ⟨⟩, rfl, rfl⟩

end Session

end RubyOlm
