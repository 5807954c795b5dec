import RubyOlm.Message.RoundTrip

/-!
# Messages in a buffer

An encoder, the strings that the caller puts where it says, and the trailers behind them fill as many bytes of a buffer
as were announced, and the decoder finds in these what was written.
-/

namespace RubyOlm

/-! ### The bytes behind -/

theorem drop_writeAt {buffer bytes : Bytes} {pos n : Nat} (inside : pos ≤ buffer.length)
    (before : pos + bytes.length ≤ n) : (writeAt buffer pos bytes).drop n = buffer.drop n := by
  have front : (buffer.take pos ++ bytes).length = pos + bytes.length := by
    rw [List.length_append, List.length_take_of_le inside]
  rw [writeAt, List.drop_append, front, List.drop_of_length_le (by omega), List.nil_append, List.drop_drop,
    Nat.add_sub_cancel' before]

theorem length_writeAt {buffer bytes : Bytes} {pos : Nat} (inside : pos + bytes.length ≤ buffer.length) :
    (writeAt buffer pos bytes).length = buffer.length := by
  simp only [writeAt, List.length_append, List.length_take, List.length_drop]
  omega

/-- What is in the buffer differs from what was there in the first `n` bytes only. -/
structure Kept (output : Bytes) (n : Nat) (buffer : Bytes) : Prop where
  length : buffer.length = output.length
  behind : buffer.drop n = output.drop n

namespace Kept

variable {output buffer : Bytes} {n : Nat} (room : n ≤ output.length)
include room

theorem writeAt {bytes : Bytes} {pos : Nat} (kept : Kept output n buffer) (before : pos + bytes.length ≤ n) :
    Kept output n (writeAt buffer pos bytes) where
  length := by
    rw [length_writeAt (by rw [kept.length]; omega), kept.length]
  behind := by
    rw [drop_writeAt (by rw [kept.length]; omega) before, kept.behind]

variable {w : Writer} (kept : Kept output n w.buffer)
include kept

theorem encodeInt {tag : UInt8} {value : UInt32} (before : w.pos + (intField tag value).length ≤ n) :
    Kept output n (w.encodeInt tag value).buffer := by
  rw [length_intField] at before
  refine writeAt room (writeAt room kept ?_) ?_
  · rw [List.length_singleton]
    omega
  · show w.pos + 1 + (varintEncode value.toNat).length ≤ n
    rw [length_varintEncode]
    omega

theorem encodeString {tag : UInt8} {valueLength : Nat} (before : w.pos + (stringHeader tag valueLength).length ≤ n) :
    Kept output n (w.encodeString tag valueLength).1.buffer := by
  rw [length_stringHeader] at before
  refine writeAt room (writeAt room kept ?_) ?_
  · rw [List.length_singleton]
    omega
  · show w.pos + 1 + (varintEncode valueLength).length ≤ n
    rw [length_varintEncode]
    omega

end Kept

@[simp] theorem Writer.pos_put (w : Writer) (bytes : Bytes) : (w.put bytes).pos = w.pos + bytes.length := rfl

@[simp] theorem Writer.pos_encodeInt (w : Writer) (tag : UInt8) (value : UInt32) :
    (w.encodeInt tag value).pos = w.pos + (intField tag value).length := by
  rw [encodeInt, pos_put, pos_put, length_varintEncode, length_intField, List.length_singleton, Nat.add_assoc]

@[simp] theorem Writer.pos_encodeString (w : Writer) (tag : UInt8) (valueLength : Nat) :
    (w.encodeString tag valueLength).1.pos = w.pos + (stringHeader tag valueLength).length + valueLength ∧
      (w.encodeString tag valueLength).2 = w.pos + (stringHeader tag valueLength).length := by
  rw [encodeString]
  simp only [pos_put, length_varintEncode, length_stringHeader, List.length_singleton, Nat.add_assoc, and_self]

theorem Kept.put_version {output : Bytes} {n : Nat} (some : 0 < n) (room : n ≤ output.length) (version : UInt8) :
    Kept output n (Writer.put ⟨output, 0⟩ [version]).buffer :=
  Kept.writeAt room ⟨rfl, rfl⟩ (Nat.le_trans (Nat.le_of_eq (by rfl)) some)

/-- A buffer that begins with a message of `n` bytes, and is as it was behind. -/
theorem Kept.eq_append {output message rest filled : Bytes} {n : Nat} (kept : Kept output n filled)
    (length : message.length = n) (begins : filled = message ++ rest) : filled = message ++ output.drop n := by
  have behind := kept.behind
  rw [begins, ← length, List.drop_left] at behind
  rw [begins, behind, length]

/-! ### Filled messages -/

/-- The message in a buffer, with its strings and its trailer. -/
def MessageWriter.fill (writer : MessageWriter) (ratchetKey ciphertext mac : Bytes) : Bytes :=
  writeAt (writeAt (writeAt writer.output writer.ratchetKey ratchetKey) writer.ciphertext ciphertext)
    (writer.ciphertext + ciphertext.length) mac

def PreKeyMessageWriter.fill (writer : PreKeyMessageWriter) (identityKey baseKey oneTimeKey message : Bytes) : Bytes :=
  writeAt (writeAt (writeAt (writeAt writer.output writer.oneTimeKey oneTimeKey) writer.identityKey identityKey)
    writer.baseKey baseKey) writer.message message

def GroupMessageWriter.fill (writer : GroupMessageWriter) (ciphertext mac signature : Bytes) : Bytes :=
  writeAt (writeAt writer.output writer.ciphertext ciphertext) writer.length (mac ++ signature)

/-- A buffer of at least so many bytes, whose own length is a `size_t`. -/
abbrev Room (length : Nat) := { output : Bytes // length ≤ output.length ∧ output.length < 2 ^ 64 }

theorem fill_message (version : UInt8) (counter : UInt32) (ratchetKey ciphertext mac : Bytes) {output : Bytes}
    (room : (messageHeader version counter ratchetKey ciphertext.length ++ ciphertext ++ mac).length ≤ output.length) :
    (encodeMessage version counter ratchetKey.length ciphertext.length output).fill ratchetKey ciphertext mac =
      (messageHeader version counter ratchetKey ciphertext.length ++ ciphertext ++ mac) ++
        output.drop (messageHeader version counter ratchetKey ciphertext.length ++ ciphertext ++ mac).length := by
  obtain ⟨header, hheader⟩ : ∃ header, messageHeader version counter ratchetKey ciphertext.length = header := ⟨_, rfl⟩
  rw [hheader] at room ⊢
  have parts := congrArg List.length hheader
  simp only [messageHeader, stringField, List.length_append, List.length_singleton] at parts
  obtain ⟨n, hn⟩ : ∃ n, (header ++ ciphertext ++ mac).length = n := ⟨_, rfl⟩
  have lengths := hn
  rw [hn] at room
  rw [List.length_append, List.length_append] at lengths
  have fits : (messageHeader version counter ratchetKey ciphertext.length).length ≤ output.length := by
    rw [hheader]
    omega
  obtain ⟨rest, -, text, key⟩ := encodeMessage_eq version counter ratchetKey ciphertext.length fits
  rw [hheader] at text key
  have written : Kept output n (encodeMessage version counter ratchetKey.length ciphertext.length output).output := by
    refine Kept.encodeString room (Kept.encodeInt room (Kept.encodeString room
      (Kept.put_version (by omega) room version) ?_) ?_) ?_
    all_goals
      simp only [Writer.pos_put, Writer.pos_encodeInt, Writer.pos_encodeString, List.length_singleton]
      omega
  have keyPos : (encodeMessage version counter ratchetKey.length ciphertext.length output).ratchetKey +
      ratchetKey.length ≤ n := by
    show ((Writer.put ⟨output, 0⟩ [version]).encodeString ratchetKeyTag ratchetKey.length).2 + _ ≤ n
    simp only [Writer.pos_put, Writer.pos_encodeString, List.length_singleton]
    omega
  have kept : Kept output n ((encodeMessage version counter ratchetKey.length ciphertext.length output).fill ratchetKey
      ciphertext mac) := by
    unfold MessageWriter.fill
    rw [text]
    exact Kept.writeAt room (Kept.writeAt room (Kept.writeAt room written keyPos) (by omega)) (by omega)
  rw [hn]
  have begins : (encodeMessage version counter ratchetKey.length ciphertext.length output).fill ratchetKey ciphertext
      mac = header ++ ciphertext ++ mac ++ (rest.drop ciphertext.length).drop mac.length := by
    unfold MessageWriter.fill
    rw [text, key, writeAt_append, ← List.length_append, writeAt_append]
  exact kept.eq_append hn begins

theorem fill_oneTimeKeyMessage (version : UInt8) (identityKey baseKey oneTimeKey message : Bytes) {output : Bytes}
    (room : (preKeyHeader version oneTimeKey baseKey identityKey message.length ++ message).length ≤ output.length) :
    (encodeOneTimeKeyMessage version identityKey.length baseKey.length oneTimeKey.length message.length output).fill
        identityKey baseKey oneTimeKey message =
      (preKeyHeader version oneTimeKey baseKey identityKey message.length ++ message) ++
        output.drop (preKeyHeader version oneTimeKey baseKey identityKey message.length ++ message).length := by
  obtain ⟨header, hheader⟩ : ∃ header, preKeyHeader version oneTimeKey baseKey identityKey message.length = header :=
    ⟨_, rfl⟩
  rw [hheader] at room ⊢
  have parts := congrArg List.length hheader
  simp only [preKeyHeader, stringField, List.length_append, List.length_singleton] at parts
  obtain ⟨n, hn⟩ : ∃ n, (header ++ message).length = n := ⟨_, rfl⟩
  have lengths := hn
  rw [hn] at room
  rw [List.length_append] at lengths
  have fits : (preKeyHeader version oneTimeKey baseKey identityKey message.length).length ≤ output.length := by
    rw [hheader]
    omega
  obtain ⟨rest, -, text, keys⟩ := encodeOneTimeKeyMessage_eq version oneTimeKey baseKey identityKey message.length fits
  rw [hheader] at text keys
  obtain ⟨writer, hwriter⟩ : ∃ writer, encodeOneTimeKeyMessage version identityKey.length baseKey.length
    oneTimeKey.length message.length output = writer := ⟨_, rfl⟩
  have written : Kept output n writer.output := by
    rw [← hwriter]
    refine Kept.encodeString room (Kept.encodeString room (Kept.encodeString room (Kept.encodeString room
      (Kept.put_version (by omega) room version) ?_) ?_) ?_) ?_
    all_goals
      simp only [Writer.pos_put, Writer.pos_encodeString, List.length_singleton]
      omega
  have positions : writer.oneTimeKey + oneTimeKey.length ≤ n ∧ writer.identityKey + identityKey.length ≤ n ∧
      writer.baseKey + baseKey.length ≤ n := by
    rw [← hwriter]
    simp only [encodeOneTimeKeyMessage, Writer.pos_put, Writer.pos_encodeString, List.length_singleton]
    omega
  rw [hwriter] at text keys ⊢
  have kept : Kept output n (writer.fill identityKey baseKey oneTimeKey message) := by
    unfold PreKeyMessageWriter.fill
    rw [text]
    exact Kept.writeAt room (Kept.writeAt room (Kept.writeAt room (Kept.writeAt room written positions.1)
      positions.2.1) positions.2.2) (by omega)
  rw [hn]
  have begins : writer.fill identityKey baseKey oneTimeKey message =
      header ++ message ++ rest.drop message.length := by
    unfold PreKeyMessageWriter.fill
    rw [text, keys, writeAt_append]
  exact kept.eq_append hn begins

theorem fill_groupMessage (version : UInt8) (messageIndex : UInt32) (ciphertext mac signature : Bytes)
    (output : Bytes) :
    (encodeGroupMessage version messageIndex ciphertext.length output).fill ciphertext mac signature =
      (groupHeader version messageIndex ciphertext.length ++ ciphertext ++ (mac ++ signature)) ++
        output.drop
          (groupHeader version messageIndex ciphertext.length ++ ciphertext ++ (mac ++ signature)).length := by
  obtain ⟨trailer, htrailer⟩ : ∃ trailer, mac ++ signature = trailer := ⟨_, rfl⟩
  rw [encodeGroupMessage_eq]
  unfold GroupMessageWriter.fill
  rw [htrailer, writeAt_append, ← List.length_append, writeAt_append, List.drop_drop, List.drop_drop,
    ← Nat.add_assoc, ← List.length_append, ← List.length_append]

/-! ### Round trips -/

/-- A message of the announced length at the start of a buffer that is as it was behind it. -/
structure Fills (announced : Nat) (output filled message : Bytes) : Prop where
  length : message.length = announced
  filled : filled = message ++ output.drop announced

/-- In all three formats a filled message has the announced length, and the decoder finds in it what was written. -/
theorem message_round_trip :
    (∀ (version : UInt8) (counter : UInt32) (ratchetKey ciphertext mac : Buffer) (stack : MessageReader)
      (output : Room (encodeMessageLength counter ratchetKey.val.length ciphertext.val.length mac.val.length)),
      ∃ message, Fills (encodeMessageLength counter ratchetKey.val.length ciphertext.val.length mac.val.length) output.val
          ((encodeMessage version counter ratchetKey.val.length ciphertext.val.length output.val).fill ratchetKey.val
            ciphertext.val mac.val) message ∧
        ∃ key text : Span,
          decodeMessage stack message mac.val.length = ⟨version, ⟨counter, true⟩, some key, some text⟩ ∧
            key.read message = ratchetKey.val ∧ text.read message = ciphertext.val) ∧
    (∀ (version : UInt8) (identityKey baseKey oneTimeKey body : Buffer) (stack : PreKeyMessageReader)
      (output : Room (encodeOneTimeKeyMessageLength oneTimeKey.val.length identityKey.val.length baseKey.val.length
        body.val.length)),
      ∃ message, Fills (encodeOneTimeKeyMessageLength oneTimeKey.val.length identityKey.val.length baseKey.val.length
            body.val.length) output.val
          ((encodeOneTimeKeyMessage version identityKey.val.length baseKey.val.length oneTimeKey.val.length
            body.val.length output.val).fill identityKey.val baseKey.val oneTimeKey.val body.val) message ∧
        ∃ oneTime base identity text : Span,
          decodeOneTimeKeyMessage stack message = ⟨version, some oneTime, some base, some identity, some text⟩ ∧
            oneTime.read message = oneTimeKey.val ∧ base.read message = baseKey.val ∧
            identity.read message = identityKey.val ∧ text.read message = body.val) ∧
    ∀ (version : UInt8) (messageIndex : UInt32) (ciphertext mac signature : Buffer) (stack : GroupMessageResults)
      (output : Room (encodeGroupMessageLength messageIndex ciphertext.val.length mac.val.length signature.val.length)),
      ∃ message, Fills (encodeGroupMessageLength messageIndex ciphertext.val.length mac.val.length signature.val.length)
          output.val ((encodeGroupMessage version messageIndex ciphertext.val.length output.val).fill ciphertext.val
            mac.val signature.val) message ∧
        ∃ text : Span, decodeGroupMessage stack message mac.val.length signature.val.length =
            ⟨version, messageIndex, true, some text⟩ ∧ text.read message = ciphertext.val := by
  refine ⟨?normal, ?preKey, ?group⟩
  case normal =>
    rintro version counter ⟨ratchetKey, short_key⟩ ⟨ciphertext, short⟩ ⟨mac, _⟩ stack ⟨output, room, _⟩
    have announced := encodeMessageLength_eq version counter ratchetKey ciphertext.length mac.length
    rw [← List.length_append, ← List.length_append] at announced
    refine ⟨_, ⟨announced.symm, ?_⟩, decodeMessage_eq stack version counter ratchetKey ciphertext mac short_key short rfl⟩
    dsimp only at room ⊢
    rw [announced] at room ⊢
    exact fill_message version counter ratchetKey ciphertext mac room
  case preKey =>
    rintro version ⟨identityKey, short_identity⟩ ⟨baseKey, short_base⟩ ⟨oneTimeKey, short_oneTime⟩ ⟨body, short⟩ stack
      ⟨output, room, _⟩
    have announced := encodeOneTimeKeyMessageLength_eq version oneTimeKey baseKey identityKey body.length
    rw [← List.length_append] at announced
    obtain ⟨oneTime, base, identity, text, found, read_oneTime, read_base, read_identity, read_text⟩ :=
      decodeOneTimeKeyMessage_eq stack version oneTimeKey baseKey identityKey body short_oneTime short_base
        short_identity short rfl
    refine ⟨_, ⟨announced.symm, ?_⟩, oneTime, base, identity, text, found, read_oneTime.1, read_base.1, read_identity.1,
      read_text⟩
    dsimp only at room ⊢
    rw [announced] at room ⊢
    exact fill_oneTimeKeyMessage version identityKey baseKey oneTimeKey body room
  case group =>
    rintro version messageIndex ⟨ciphertext, short⟩ ⟨mac, _⟩ ⟨signature, _⟩ stack ⟨output, room, bounded⟩
    have announced := encodeGroupMessageLength_eq messageIndex version ciphertext.length mac.length signature.length
    rw [← List.length_append, Nat.add_assoc, ← List.length_append, ← List.length_append] at announced
    have short_trailer : (mac ++ signature).length < 2 ^ 64 := by
      dsimp only at room
      rw [announced, List.length_append] at room
      omega
    have trailers : (mac ++ signature).length = mac.length + signature.length := List.length_append
    have decoded := decodeGroupMessage_eq stack version messageIndex ciphertext _ trailers short_trailer short
    refine ⟨_, ⟨announced.symm, ?_⟩, _, decoded, ?_⟩
    · dsimp only
      rw [announced]
      exact fill_groupMessage version messageIndex ciphertext mac signature output
    · have behind : (groupHeader version messageIndex ciphertext.length ++ ciphertext ++ (mac ++ signature)).drop
          (groupHeader version messageIndex ciphertext.length).length = ciphertext ++ (mac ++ signature) := by
        rw [List.append_assoc, List.drop_left]
      exact Span.read_of_drop behind

end RubyOlm
