import RubyOlm.Message.Varint

/-!
# What is encoded is decoded

Fields first, each read off the input at an offset; then the three formats. An encoder
is followed through its buffer as the part already written and the rest.
-/

namespace RubyOlm

/-! ### Fields -/

def intField (tag : UInt8) (value : UInt32) : Bytes := tag :: varintEncode value.toNat

def stringHeader (tag : UInt8) (length : Nat) : Bytes := tag :: varintEncode length

@[simp] theorem length_intField (tag : UInt8) (value : UInt32) :
    (intField tag value).length = 1 + varintLength value.toNat := by
  simp [intField, Nat.add_comm]

@[simp] theorem length_stringHeader (tag : UInt8) (length : Nat) :
    (stringHeader tag length).length = 1 + varintLength length := by
  simp [stringHeader, Nat.add_comm]

def stringField (tag : UInt8) (value : Bytes) : Bytes := stringHeader tag value.length ++ value

@[simp] theorem length_stringField (tag : UInt8) (value : Bytes) :
    (stringField tag value).length = 1 + varstringLength value.length := by
  unfold stringField
  rw [List.length_append, length_stringHeader, varstringLength, Nat.add_assoc]

theorem drop_of_drop {input front rest : Bytes} {pos : Nat} (read : input.drop pos = front ++ rest) :
    input.drop (pos + front.length) = rest := by
  rw [← List.drop_drop, read, List.drop_left]

theorem decodeInt_complete {input varint rest : Bytes} (fin : Nat) {pos : Nat} {tag : UInt8} (field : IntField)
    (complete : CompleteVarint varint) (read : input.drop pos = tag :: (varint ++ rest))
    (room : pos + 1 + varint.length ≤ fin) :
    decodeInt input fin tag pos field =
      (pos + 1 + varint.length, ⟨UInt32.ofNat (varintValue varint % 2 ^ 32), true⟩) := by
  obtain ⟨here, next⟩ := getD_of_drop read
  have skip := varintSkip_complete complete next (show varint.length ≤ fin - (pos + 1) by omega)
  have taken : (input.drop (pos + 1)).take (pos + 1 + varint.length - (pos + 1)) = varint := by
    rw [next, Nat.add_sub_cancel_left, List.take_left]
  rw [decodeInt, if_pos ⟨by omega, here⟩]
  simp only [skip, taken]
  rw [varintDecode_eq (by decide)]

theorem decodeString_complete {input varint value rest : Bytes} (fin : Nat) {pos : Nat} {tag : UInt8}
    (field : Option Span) (complete : CompleteVarint varint) (counts : varintValue varint = value.length)
    (read : input.drop pos = tag :: (varint ++ (value ++ rest)))
    (room : pos + 1 + varint.length + value.length ≤ fin) (short : value.length < 2 ^ 64) :
    decodeString input fin tag pos field =
      (pos + 1 + varint.length + value.length, some ⟨pos + 1 + varint.length, value.length⟩) := by
  obtain ⟨here, next⟩ := getD_of_drop read
  have skip := varintSkip_complete complete next (show varint.length ≤ fin - (pos + 1) by omega)
  have taken : (input.drop (pos + 1)).take (pos + 1 + varint.length - (pos + 1)) = varint := by
    rw [next, Nat.add_sub_cancel_left, List.take_left]
  have fits : ¬ value.length > fin - (pos + 1 + varint.length) := by omega
  rw [decodeString, if_pos ⟨by omega, here⟩]
  simp only [skip, taken]
  rw [varintDecode_eq (by decide), counts, Nat.mod_eq_of_lt short, if_neg fits]

theorem decodeInt_of_drop {input rest : Bytes} (fin : Nat) {pos : Nat} {tag : UInt8} (value : UInt32)
    (field : IntField) (read : input.drop pos = intField tag value ++ rest)
    (room : pos + (intField tag value).length ≤ fin) :
    decodeInt input fin tag pos field = (pos + (intField tag value).length, ⟨value, true⟩) := by
  rw [length_intField, ← length_varintEncode, ← Nat.add_assoc] at room ⊢
  rw [decodeInt_complete fin field (completeVarint_varintEncode value.toNat) read room, varintValue_varintEncode,
    Nat.mod_eq_of_lt value.toNat_lt, UInt32.ofNat_toNat]

theorem decodeString_of_drop {input value rest : Bytes} (fin : Nat) {pos : Nat} {tag : UInt8}
    (field : Option Span) (read : input.drop pos = stringHeader tag value.length ++ (value ++ rest))
    (room : pos + (stringHeader tag value.length).length + value.length ≤ fin)
    (short : value.length < 2 ^ 64) :
    decodeString input fin tag pos field =
      (pos + (stringHeader tag value.length).length + value.length,
        some ⟨pos + (stringHeader tag value.length).length, value.length⟩) := by
  rw [length_stringHeader, ← length_varintEncode, ← Nat.add_assoc] at room ⊢
  exact decodeString_complete fin field (completeVarint_varintEncode value.length)
    (varintValue_varintEncode value.length) read room short

theorem Span.read_of_drop {input value rest : Bytes} {pos : Nat} (read : input.drop pos = value ++ rest) :
    Span.read ⟨pos, value.length⟩ input = value := by
  rw [Span.read, read, List.take_left]

theorem decodeString_field {input value rest : Bytes} (fin : Nat) {pos : Nat} {tag : UInt8} (field : Option Span)
    (read : input.drop pos = stringField tag value ++ rest) (room : pos + (stringField tag value).length ≤ fin)
    (short : value.length < 2 ^ 64) :
    ∃ span : Span, decodeString input fin tag pos field = (pos + (stringField tag value).length, some span) ∧
      span.read input = value ∧ span.length = value.length := by
  unfold stringField at read
  rw [List.append_assoc] at read
  unfold stringField at room ⊢
  rw [List.length_append, ← Nat.add_assoc] at room ⊢
  exact ⟨_, decodeString_of_drop fin field read room short, Span.read_of_drop (drop_of_drop read), rfl⟩

theorem decodeFields_last {Results : Type} (input : Bytes) (fuel : Nat) {fin pos : Nat} {results results' : Results}
    {decode : Nat → Results → Nat × Results} (before : pos < fin)
    (turn : decode pos results = (fin, results')) :
    decodeFields input fin decode (fuel + 1) pos results = results' := by
  rw [decodeFields, if_neg (by omega)]
  simp only [turn]
  rw [if_neg (by omega)]
  cases fuel with
  | zero => rfl
  | succ fuel => rw [decodeFields, if_pos rfl]

/-! ### Writing -/

theorem Writer.put_append (done rest bytes : Bytes) :
    Writer.put ⟨done ++ rest, done.length⟩ bytes =
      ⟨(done ++ bytes) ++ rest.drop bytes.length, (done ++ bytes).length⟩ := by
  rw [Writer.put, writeAt_append, List.length_append]

theorem Writer.encodeInt_append (done rest : Bytes) (tag : UInt8) (value : UInt32) :
    Writer.encodeInt ⟨done ++ rest, done.length⟩ tag value =
      ⟨(done ++ intField tag value) ++ rest.drop (intField tag value).length,
        (done ++ intField tag value).length⟩ := by
  rw [encodeInt, put_append, put_append, List.append_assoc done, List.drop_drop, List.length_singleton,
    List.singleton_append, length_intField, length_varintEncode]
  rfl

theorem Writer.encodeString_append (done rest : Bytes) (tag : UInt8) (length : Nat) :
    Writer.encodeString ⟨done ++ rest, done.length⟩ tag length =
      (⟨(done ++ stringHeader tag length) ++ rest.drop (stringHeader tag length).length,
          (done ++ stringHeader tag length).length + length⟩,
        (done ++ stringHeader tag length).length) := by
  rw [encodeString, put_append, put_append, List.append_assoc done, List.drop_drop, List.length_singleton,
    List.singleton_append, length_stringHeader, length_varintEncode]
  rfl

/-- A string field is written around whatever is in the buffer where the string is to go. -/
theorem Writer.encodeString_hole (done rest : Bytes) (tag : UInt8) {length : Nat}
    (room : (stringHeader tag length).length + length ≤ rest.length) :
    ∃ hole rest', hole.length = length ∧
      (stringHeader tag length).length + length + rest'.length = rest.length ∧
      Writer.encodeString ⟨done ++ rest, done.length⟩ tag length =
        (⟨(done ++ stringHeader tag length ++ hole) ++ rest', (done ++ stringHeader tag length ++ hole).length⟩,
          (done ++ stringHeader tag length).length) := by
  obtain ⟨hole, hhole⟩ : ∃ hole, (rest.drop (stringHeader tag length).length).take length = hole := ⟨_, rfl⟩
  have hole_length : hole.length = length := by
    rw [← hhole, List.length_take, List.length_drop]
    omega
  refine ⟨hole, (rest.drop (stringHeader tag length).length).drop length, hole_length, ?_, ?_⟩
  · rw [List.length_drop, List.length_drop]
    omega
  · have front : (done ++ stringHeader tag length ++ hole).length =
        (done ++ stringHeader tag length).length + length := by
      rw [List.length_append, hole_length]
    rw [encodeString_append, front, ← hhole, List.append_assoc _ (List.take _ _), List.take_append_drop]

/-! ### Normal messages -/

def messageHeader (version : UInt8) (counter : UInt32) (ratchetKey : Bytes) (ciphertextLength : Nat) : Bytes :=
  [version] ++ stringField ratchetKeyTag ratchetKey ++ intField counterTag counter ++
    stringHeader ciphertextTag ciphertextLength

theorem encodeMessageLength_eq (version : UInt8) (counter : UInt32) (ratchetKey : Bytes)
    (ciphertextLength macLength : Nat) :
    encodeMessageLength counter ratchetKey.length ciphertextLength macLength =
      (messageHeader version counter ratchetKey ciphertextLength).length + ciphertextLength + macLength := by
  simp only [encodeMessageLength, messageHeader, varstringLength, List.length_append, List.length_singleton,
    length_intField, length_stringHeader, length_stringField]
  omega

theorem Writer.put_version (version : UInt8) (output : Bytes) :
    Writer.put ⟨output, 0⟩ [version] = ⟨[version] ++ output.drop 1, [version].length⟩ :=
  Writer.put_append [] output [version]

theorem encodeMessage_eq (version : UInt8) (counter : UInt32) (ratchetKey : Bytes) (ciphertextLength : Nat)
    {output : Bytes} (room : (messageHeader version counter ratchetKey ciphertextLength).length ≤ output.length) :
    ∃ rest, (messageHeader version counter ratchetKey ciphertextLength).length + rest.length = output.length ∧
      (encodeMessage version counter ratchetKey.length ciphertextLength output).ciphertext =
        (messageHeader version counter ratchetKey ciphertextLength).length ∧
      writeAt (encodeMessage version counter ratchetKey.length ciphertextLength output).output
          (encodeMessage version counter ratchetKey.length ciphertextLength output).ratchetKey ratchetKey =
        messageHeader version counter ratchetKey ciphertextLength ++ rest := by
  simp only [messageHeader, stringField, List.length_append, List.length_singleton] at room ⊢
  obtain ⟨hole, rest, hole_length, rest_length, key⟩ :=
    Writer.encodeString_hole [version] (output.drop 1) ratchetKeyTag
      (show (stringHeader ratchetKeyTag ratchetKey.length).length + ratchetKey.length ≤ (output.drop 1).length by
        rw [List.length_drop]
        omega)
  rw [List.length_drop] at rest_length
  have writer : encodeMessage version counter ratchetKey.length ciphertextLength output =
      { output := [version] ++ stringHeader ratchetKeyTag ratchetKey.length ++ hole ++
          intField counterTag counter ++ stringHeader ciphertextTag ciphertextLength ++
          (rest.drop (intField counterTag counter).length).drop (stringHeader ciphertextTag ciphertextLength).length
        ratchetKey := ([version] ++ stringHeader ratchetKeyTag ratchetKey.length).length
        ciphertext := ([version] ++ stringHeader ratchetKeyTag ratchetKey.length ++ hole ++
          intField counterTag counter ++ stringHeader ciphertextTag ciphertextLength).length } := by
    simp only [encodeMessage]
    rw [Writer.put_version, key, Writer.encodeInt_append, Writer.encodeString_append]
  rw [writer]
  refine ⟨(rest.drop (intField counterTag counter).length).drop (stringHeader ciphertextTag ciphertextLength).length,
    ?_, ?_, ?_⟩
  · rw [List.length_drop, List.length_drop]
    omega
  · simp only [List.length_append, List.length_singleton, hole_length]
    omega
  · have filled := writeAt_replace ([version] ++ stringHeader ratchetKeyTag ratchetKey.length) hole ratchetKey
      (intField counterTag counter ++ stringHeader ciphertextTag ciphertextLength ++
        (rest.drop (intField counterTag counter).length).drop (stringHeader ciphertextTag ciphertextLength).length)
      hole_length.symm
    simp only [List.append_assoc] at filled ⊢
    exact filled

theorem decodeMessage_eq (stack : MessageReader) (version : UInt8) (counter : UInt32)
    (ratchetKey ciphertext trailer : Bytes) (short_key : ratchetKey.length < 2 ^ 64)
    (short : ciphertext.length < 2 ^ 64) {input : Bytes}
    (hinput : messageHeader version counter ratchetKey ciphertext.length ++ ciphertext ++ trailer = input) :
    ∃ key text : Span,
      decodeMessage stack input trailer.length = ⟨version, ⟨counter, true⟩, some key, some text⟩ ∧
        key.read input = ratchetKey ∧ text.read input = ciphertext := by
  have fields : input.drop 0 = version :: (stringField ratchetKeyTag ratchetKey ++ (intField counterTag counter ++
      (stringField ciphertextTag ciphertext ++ trailer))) := by
    rw [List.drop_zero, ← hinput, messageHeader, stringField, stringField]
    simp only [List.append_assoc, List.cons_append, List.nil_append]
  have length := congrArg List.length fields
  simp only [List.drop_zero, List.length_cons, List.length_append] at length
  obtain ⟨first, after_version⟩ := getD_of_drop fields
  rw [Nat.zero_add] at after_version
  obtain ⟨fin, hfin⟩ : ∃ fin, input.length - trailer.length = fin := ⟨_, rfl⟩
  obtain ⟨key, found_key, read_key, -⟩ := decodeString_field fin none after_version (by omega) short_key
  have after_key := drop_of_drop after_version
  have index := decodeInt_of_drop fin counter ⟨stack.counter.value, false⟩ after_key (by omega)
  have after_counter := drop_of_drop after_key
  obtain ⟨text, found_text, read_text, -⟩ := decodeString_field fin none after_counter (by omega) short
  have turn : decodeMessageFields input fin 1 ⟨version, ⟨stack.counter.value, false⟩, none, none⟩ =
      (fin, ⟨version, ⟨counter, true⟩, some key, some text⟩) := by
    simp only [decodeMessageFields, found_key, index, found_text, Prod.mk.injEq, and_true]
    omega
  have before_end : 1 < fin := by
    rw [length_stringField] at length
    omega
  obtain ⟨fuel, hfuel⟩ := Nat.exists_eq_add_of_lt (show 0 < input.length by omega)
  refine ⟨key, text, ?_, read_key, read_text⟩
  rw [decodeMessage, if_neg (by omega), hfin]
  dsimp only
  rw [if_neg (by omega), hfuel, first]
  exact decodeFields_last input (0 + fuel) before_end turn

/-! ### Pre-key messages -/

def preKeyHeader (version : UInt8) (oneTimeKey baseKey identityKey : Bytes) (messageLength : Nat) : Bytes :=
  [version] ++ stringField oneTimeKeyIdTag oneTimeKey ++ stringField baseKeyTag baseKey ++
    stringField identityKeyTag identityKey ++ stringHeader messageTag messageLength

theorem encodeOneTimeKeyMessageLength_eq (version : UInt8) (oneTimeKey baseKey identityKey : Bytes)
    (messageLength : Nat) :
    encodeOneTimeKeyMessageLength oneTimeKey.length identityKey.length baseKey.length messageLength =
      (preKeyHeader version oneTimeKey baseKey identityKey messageLength).length + messageLength := by
  simp only [encodeOneTimeKeyMessageLength, preKeyHeader, List.length_append, List.length_singleton,
    length_stringField, length_stringHeader]
  simp only [varstringLength]
  omega

theorem encodeOneTimeKeyMessage_eq (version : UInt8) (oneTimeKey baseKey identityKey : Bytes) (messageLength : Nat)
    {output : Bytes}
    (room : (preKeyHeader version oneTimeKey baseKey identityKey messageLength).length ≤ output.length) :
    ∃ rest, (preKeyHeader version oneTimeKey baseKey identityKey messageLength).length + rest.length = output.length ∧
      let writer := encodeOneTimeKeyMessage version identityKey.length baseKey.length oneTimeKey.length messageLength
        output
      writer.message = (preKeyHeader version oneTimeKey baseKey identityKey messageLength).length ∧
        writeAt (writeAt (writeAt writer.output writer.oneTimeKey oneTimeKey) writer.identityKey identityKey)
            writer.baseKey baseKey =
          preKeyHeader version oneTimeKey baseKey identityKey messageLength ++ rest := by
  simp only [preKeyHeader, stringField, List.length_append, List.length_singleton] at room ⊢
  obtain ⟨oneTimeHole, rest₁, oneTime_length, length₁, oneTime⟩ :=
    Writer.encodeString_hole [version] (output.drop 1) oneTimeKeyIdTag
      (show (stringHeader oneTimeKeyIdTag oneTimeKey.length).length + oneTimeKey.length ≤ (output.drop 1).length by
        rw [List.length_drop]
        omega)
  rw [List.length_drop] at length₁
  obtain ⟨baseHole, rest₂, base_length, length₂, base⟩ :=
    Writer.encodeString_hole ([version] ++ stringHeader oneTimeKeyIdTag oneTimeKey.length ++ oneTimeHole) rest₁ baseKeyTag
      (show (stringHeader baseKeyTag baseKey.length).length + baseKey.length ≤ rest₁.length by omega)
  obtain ⟨identityHole, rest₃, identity_length, length₃, identity⟩ :=
    Writer.encodeString_hole ([version] ++ stringHeader oneTimeKeyIdTag oneTimeKey.length ++ oneTimeHole ++
        stringHeader baseKeyTag baseKey.length ++ baseHole) rest₂ identityKeyTag
      (show (stringHeader identityKeyTag identityKey.length).length + identityKey.length ≤ rest₂.length by omega)
  obtain ⟨tail, htail⟩ : ∃ tail, rest₃.drop (stringHeader messageTag messageLength).length = tail := ⟨_, rfl⟩
  have writer : encodeOneTimeKeyMessage version identityKey.length baseKey.length oneTimeKey.length messageLength output =
      { output := [version] ++ stringHeader oneTimeKeyIdTag oneTimeKey.length ++ oneTimeHole ++
          stringHeader baseKeyTag baseKey.length ++ baseHole ++ stringHeader identityKeyTag identityKey.length ++
          identityHole ++ stringHeader messageTag messageLength ++ tail
        identityKey := ([version] ++ stringHeader oneTimeKeyIdTag oneTimeKey.length ++ oneTimeHole ++
          stringHeader baseKeyTag baseKey.length ++ baseHole ++ stringHeader identityKeyTag identityKey.length).length
        baseKey := ([version] ++ stringHeader oneTimeKeyIdTag oneTimeKey.length ++ oneTimeHole ++
          stringHeader baseKeyTag baseKey.length).length
        oneTimeKey := ([version] ++ stringHeader oneTimeKeyIdTag oneTimeKey.length).length
        message := ([version] ++ stringHeader oneTimeKeyIdTag oneTimeKey.length ++ oneTimeHole ++
          stringHeader baseKeyTag baseKey.length ++ baseHole ++ stringHeader identityKeyTag identityKey.length ++
          identityHole ++ stringHeader messageTag messageLength).length } := by
    simp only [encodeOneTimeKeyMessage]
    rw [Writer.put_version, oneTime, base, identity, Writer.encodeString_append, htail]
  rw [writer]
  refine ⟨tail, ?_, ?_, ?_⟩
  · rw [← htail, List.length_drop]
    omega
  · simp only [List.length_append, List.length_singleton, oneTime_length, base_length, identity_length]
    omega
  · -- each key replaces its hole
    have filled := writeAt_replace ([version] ++ stringHeader oneTimeKeyIdTag oneTimeKey.length) oneTimeHole oneTimeKey
      (stringHeader baseKeyTag baseKey.length ++ baseHole ++ stringHeader identityKeyTag identityKey.length ++
        identityHole ++ stringHeader messageTag messageLength ++ tail) oneTime_length.symm
    have filled' := writeAt_replace ([version] ++ stringHeader oneTimeKeyIdTag oneTimeKey.length ++ oneTimeKey ++
        stringHeader baseKeyTag baseKey.length ++ baseHole ++ stringHeader identityKeyTag identityKey.length)
      identityHole identityKey (stringHeader messageTag messageLength ++ tail) identity_length.symm
    have filled'' := writeAt_replace ([version] ++ stringHeader oneTimeKeyIdTag oneTimeKey.length ++ oneTimeKey ++
        stringHeader baseKeyTag baseKey.length) baseHole baseKey (stringHeader identityKeyTag identityKey.length ++
        identityKey ++ stringHeader messageTag messageLength ++ tail) base_length.symm
    simp only [List.length_append, List.append_assoc, oneTime_length] at filled filled' filled'' ⊢
    rw [filled, filled', filled'']

theorem decodeOneTimeKeyMessage_eq (stack : PreKeyMessageReader) (version : UInt8)
    (oneTimeKey baseKey identityKey message : Bytes) (short_oneTimeKey : oneTimeKey.length < 2 ^ 64)
    (short_baseKey : baseKey.length < 2 ^ 64) (short_identityKey : identityKey.length < 2 ^ 64)
    (short : message.length < 2 ^ 64) {input : Bytes}
    (hinput : preKeyHeader version oneTimeKey baseKey identityKey message.length ++ message = input) :
    ∃ oneTime base identity body : Span,
      decodeOneTimeKeyMessage stack input = ⟨version, some oneTime, some base, some identity, some body⟩ ∧
        (oneTime.read input = oneTimeKey ∧ oneTime.length = oneTimeKey.length) ∧
        (base.read input = baseKey ∧ base.length = baseKey.length) ∧
        (identity.read input = identityKey ∧ identity.length = identityKey.length) ∧
        body.read input = message := by
  have fields : input.drop 0 = version :: (stringField oneTimeKeyIdTag oneTimeKey ++ (stringField baseKeyTag baseKey ++
      (stringField identityKeyTag identityKey ++ (stringField messageTag message ++ [])))) := by
    rw [List.drop_zero, ← hinput, preKeyHeader, stringField, stringField, stringField, stringField]
    simp only [List.append_assoc, List.cons_append, List.nil_append, List.append_nil]
  have length := congrArg List.length fields
  simp only [List.drop_zero, List.length_cons, List.length_append, List.length_nil, Nat.add_zero] at length
  obtain ⟨first, after_version⟩ := getD_of_drop fields
  rw [Nat.zero_add] at after_version
  obtain ⟨fin, hfin⟩ : ∃ fin, input.length = fin := ⟨_, rfl⟩
  obtain ⟨oneTime, found_oneTime, read_oneTime⟩ :=
    decodeString_field fin none after_version (by omega) short_oneTimeKey
  have after_oneTime := drop_of_drop after_version
  obtain ⟨base, found_base, read_base⟩ := decodeString_field fin none after_oneTime (by omega) short_baseKey
  have after_base := drop_of_drop after_oneTime
  obtain ⟨identity, found_identity, read_identity⟩ :=
    decodeString_field fin none after_base (by omega) short_identityKey
  have after_identity := drop_of_drop after_base
  obtain ⟨body, found_body, read_body, -⟩ := decodeString_field fin none after_identity (by omega) short
  have turn : decodeOneTimeKeyFields input fin 1 ⟨version, none, none, none, none⟩ =
      (fin, ⟨version, some oneTime, some base, some identity, some body⟩) := by
    simp only [decodeOneTimeKeyFields, found_oneTime, found_base, found_identity, found_body, Prod.mk.injEq, and_true]
    omega
  have before_end : 1 < fin := by
    rw [length_stringField] at length
    omega
  obtain ⟨fuel, hfuel⟩ := Nat.exists_eq_add_of_lt (show 0 < fin by omega)
  refine ⟨oneTime, base, identity, body, ?_, read_oneTime, read_base, read_identity, read_body⟩
  rw [decodeOneTimeKeyMessage]
  dsimp only
  rw [hfin, if_neg (by omega), hfuel, first, ← hfuel]
  have found := decodeFields_last input (0 + fuel) before_end turn
  rw [← hfuel] at found
  exact found

/-! ### Group messages -/

def groupHeader (version : UInt8) (messageIndex : UInt32) (ciphertextLength : Nat) : Bytes :=
  [version] ++ intField groupMessageIndexTag messageIndex ++ stringHeader groupCiphertextTag ciphertextLength

theorem encodeGroupMessageLength_eq (messageIndex : UInt32) (version : UInt8)
    (ciphertextLength macLength signatureLength : Nat) :
    encodeGroupMessageLength messageIndex ciphertextLength macLength signatureLength =
      (groupHeader version messageIndex ciphertextLength).length + ciphertextLength + macLength +
        signatureLength := by
  simp only [encodeGroupMessageLength, groupHeader, varstringLength, List.length_append,
    List.length_singleton, length_intField, length_stringHeader]
  omega

theorem encodeGroupMessage_eq (version : UInt8) (messageIndex : UInt32) (ciphertextLength : Nat)
    (output : Bytes) :
    encodeGroupMessage version messageIndex ciphertextLength output =
      { output := groupHeader version messageIndex ciphertextLength ++
          output.drop (groupHeader version messageIndex ciphertextLength).length
        ciphertext := (groupHeader version messageIndex ciphertextLength).length
        length := (groupHeader version messageIndex ciphertextLength).length + ciphertextLength } := by
  have version_put := Writer.put_append [] output [version]
  rw [List.nil_append, List.nil_append, List.length_nil] at version_put
  simp only [encodeGroupMessage]
  rw [version_put, Writer.encodeInt_append, Writer.encodeString_append, List.drop_drop, List.drop_drop,
    ← List.length_append, ← List.length_append]
  rfl

theorem decodeGroupMessage_eq (stack : GroupMessageResults) (version : UInt8) (messageIndex : UInt32)
    (ciphertext trailer : Bytes) {macLength signatureLength : Nat}
    (trailer_length : trailer.length = macLength + signatureLength) (short_trailer : trailer.length < 2 ^ 64)
    (short : ciphertext.length < 2 ^ 64) :
    decodeGroupMessage stack (groupHeader version messageIndex ciphertext.length ++ ciphertext ++ trailer)
        macLength signatureLength =
      { version
        messageIndex
        hasMessageIndex := true
        ciphertext := some
          ⟨(groupHeader version messageIndex ciphertext.length).length, ciphertext.length⟩ } := by
  obtain ⟨header, hheader⟩ : ∃ header, groupHeader version messageIndex ciphertext.length = header := ⟨_, rfl⟩
  have header_length : header.length = 1 + (intField groupMessageIndexTag messageIndex).length +
      (stringHeader groupCiphertextTag ciphertext.length).length := by
    rw [← hheader, groupHeader, List.length_append, List.length_append, List.length_singleton]
  rw [hheader]
  obtain ⟨input, hinput⟩ : ∃ input, header ++ ciphertext ++ trailer = input := ⟨_, rfl⟩
  have fields : input.drop 0 = version :: (intField groupMessageIndexTag messageIndex ++
      (stringHeader groupCiphertextTag ciphertext.length ++ (ciphertext ++ trailer))) := by
    rw [List.drop_zero, ← hinput, ← hheader, groupHeader]
    simp only [List.append_assoc, List.cons_append, List.nil_append]
  have length : input.length = header.length + ciphertext.length + (macLength + signatureLength) := by
    rw [← hinput, List.length_append, List.length_append, trailer_length]
  have fin : input.length - (macLength + signatureLength) = header.length + ciphertext.length := by
    omega
  obtain ⟨first, rest⟩ := getD_of_drop fields
  have index := decodeInt_of_drop (header.length + ciphertext.length) messageIndex ⟨0, false⟩ rest (by omega)
  have string := decodeString_of_drop (header.length + ciphertext.length) none (drop_of_drop rest)
    (by omega) short
  rw [Nat.zero_add, ← header_length] at string
  rw [Nat.zero_add] at index
  have turn : decodeGroupFields input (header.length + ciphertext.length) 1 (⟨0, false⟩, none) =
      (header.length + ciphertext.length,
        ⟨messageIndex, true⟩, some ⟨header.length, ciphertext.length⟩) := by
    simp only [decodeGroupFields, index, string]
  obtain ⟨fuel, hfuel⟩ := Nat.exists_eq_add_of_lt (show 0 < input.length by omega)
  have found := decodeFields_last input (0 + fuel)
    (show 1 < header.length + ciphertext.length by
      rw [header_length, length_intField]
      omega) turn
  rw [hinput, decodeGroupMessage, Nat.mod_eq_of_lt (by omega), if_neg (by omega), fin]
  dsimp only
  rw [if_neg (by omega), hfuel, found, first]

end RubyOlm
