import RubyOlm.Message.RoundTrip
import RubyOlm.Theory.Tiling

/-!
# Encoding messages in buffers

The encoders of `message.cpp` over pointers. They write what comes before each field and leave room for the field
itself, which the caller puts there later.
-/

namespace RubyOlm

open Prog

variable {B : Type} [DecidableEq B]

/-! ### Fields -/

/-- The `while` loop of `varint_encode`; the value itself is fuel enough. -/
def varintEncodeFromAt : (fuel value : Nat) → (output : Pointer B) → Prog B (Pointer B)
  | 0, value, output => do
    store output (UInt8.ofNat value)
    return output + 1
  | fuel + 1, value, output =>
    if value ≥ 128 then do
      store output (UInt8.ofNat (0x7F &&& value ||| 0x80))
      varintEncodeFromAt fuel (value >>> 7) (output + 1)
    else do
      store output (UInt8.ofNat value)
      return output + 1

def varintEncodeAt (output : Pointer B) (value : Nat) : Prog B (Pointer B) := varintEncodeFromAt value value output

def encodeIntAt (pos : Pointer B) (tag : UInt8) (value : UInt32) : Prog B (Pointer B) := do
  store pos tag
  varintEncodeAt (pos + 1) value.toNat

/-- `encode` of a string: the place behind it, and where its bytes go. -/
def encodeStringAt (pos : Pointer B) (tag : UInt8) (valueLength : Nat) : Prog B (Pointer B × Pointer B) := do
  store pos tag
  let pos ← varintEncodeAt (pos + 1) valueLength
  return (pos + valueLength, pos)

/-! ### What a field returns and what it puts -/

@[simp] theorem varintEncodeFromAt_value (fuel value : Nat) (output : Pointer B) (memory : Memory B) :
    (varintEncodeFromAt fuel value output memory).value = output + (varintEncodeFrom fuel value).length := by
  induction fuel generalizing value output memory with
  | zero => rfl
  | succ fuel ih =>
    rw [varintEncodeFromAt, varintEncodeFrom]
    split
    · rw [value_bind, ih, Pointer.add_add, List.length_cons, Nat.add_comm 1]
    · rfl

@[simp] theorem encodeIntAt_value (pos : Pointer B) (tag : UInt8) (value : UInt32) (memory : Memory B) :
    (encodeIntAt pos tag value memory).value = pos + (intField tag value).length := by
  rw [encodeIntAt, varintEncodeAt, value_bind, varintEncodeFromAt_value, Pointer.add_add, Nat.add_comm]
  rfl

@[simp] theorem encodeStringAt_value (pos : Pointer B) (tag : UInt8) (valueLength : Nat) (memory : Memory B) :
    (encodeStringAt pos tag valueLength memory).value =
      (pos + ((stringHeader tag valueLength).length + valueLength), pos + (stringHeader tag valueLength).length) := by
  have header : pos + 1 + (varintEncodeFrom valueLength valueLength).length =
      pos + (stringHeader tag valueLength).length := by
    rw [Pointer.add_add, Nat.add_comm]
    rfl
  rw [encodeStringAt, varintEncodeAt, value_bind, value_bind, varintEncodeFromAt_value, header, run_pure, Pointer.add_add]

theorem varintEncodeFromAt_lays (fuel value : Nat) (memory : Memory B) (p : Pointer B) (pos : Nat) :
    (varintEncodeFromAt fuel value (p + pos)).Lays memory p [(pos, varintEncodeFrom fuel value)] := by
  induction fuel generalizing value memory pos with
  | zero => exact (lays_store memory p pos _).then_pure _
  | succ fuel ih =>
    rw [varintEncodeFromAt, varintEncodeFrom]
    split
    · have rest (memory : Memory B) := ih (value >>> 7) memory (pos + 1)
      rw [← Pointer.add_add] at rest
      exact Lays.join [] ((lays_store memory p pos _).bind (rest _))
    · exact (lays_store memory p pos _).then_pure _

theorem varintEncodeAt_lays (value : Nat) (memory : Memory B) (p : Pointer B) (pos : Nat) :
    (varintEncodeAt (p + pos) value).Lays memory p [(pos, varintEncode value)] :=
  varintEncodeFromAt_lays value value memory p pos

theorem encodeIntAt_lays (tag : UInt8) (value : UInt32) (memory : Memory B) (p : Pointer B) (pos : Nat) :
    (encodeIntAt (p + pos) tag value).Lays memory p [(pos, intField tag value)] := by
  have rest (memory : Memory B) := varintEncodeAt_lays value.toNat memory p (pos + 1)
  rw [← Pointer.add_add] at rest
  exact Lays.join [] ((lays_store memory p pos tag).bind (rest _))

theorem encodeStringAt_lays (tag : UInt8) (valueLength : Nat) (memory : Memory B) (p : Pointer B) (pos : Nat) :
    (encodeStringAt (p + pos) tag valueLength).Lays memory p [(pos, stringHeader tag valueLength)] := by
  have rest (memory : Memory B) := varintEncodeAt_lays valueLength memory p (pos + 1)
  rw [← Pointer.add_add] at rest
  exact Lays.join [] ((lays_store memory p pos tag).bind ((rest _).then_pure _))

section Next

variable {Result : Type} {p : Pointer B} {pos : Nat} {header : Bytes} {pieces : List (Nat × Bytes)}

/-- A field in the middle of a message: what follows it goes on behind the room for its value. -/
theorem lays_after_string {tag : UInt8} {valueLength : Nat} (written : stringHeader tag valueLength = header)
    {next : Pointer B × Pointer B → Prog B Result}
    (rest : ∀ memory, (next (p + (pos + header.length + valueLength), p + (pos + header.length))).Lays memory p pieces)
    (memory : Memory B) : (encodeStringAt (p + pos) tag valueLength >>= next).Lays memory p ((pos, header) :: pieces) := by
  have first := encodeStringAt_lays tag valueLength memory p pos
  rw [written] at first
  refine first.bind ?_
  rw [encodeStringAt_value, written, Pointer.add_add, Pointer.add_add, ← Nat.add_assoc]
  exact rest _

theorem lays_after_int {tag : UInt8} {value : UInt32} (written : intField tag value = header)
    {next : Pointer B → Prog B Result} (rest : ∀ memory, (next (p + (pos + header.length))).Lays memory p pieces)
    (memory : Memory B) : (encodeIntAt (p + pos) tag value >>= next).Lays memory p ((pos, header) :: pieces) := by
  have first := encodeIntAt_lays tag value memory p pos
  rw [written] at first
  refine first.bind ?_
  rw [encodeIntAt_value, written, Pointer.add_add]
  exact rest _

end Next

/-! ### Normal messages -/

/-- `MessageWriter`. -/
structure MessageWriterAt (B : Type) where
  ratchetKey : Pointer B
  ciphertext : Pointer B

def encodeMessageAt (version : UInt8) (counter : UInt32) (ratchetKeyLength ciphertextLength : Nat)
    (output : Pointer B) : Prog B (MessageWriterAt B) := do
  store output version
  let (pos, ratchetKey) ← encodeStringAt (output + 1) ratchetKeyTag ratchetKeyLength
  let pos ← encodeIntAt pos counterTag counter
  let (_, ciphertext) ← encodeStringAt pos ciphertextTag ciphertextLength
  return ⟨ratchetKey, ciphertext⟩

/-- With the key put where it says, what is written is the header, and the ciphertext goes behind that. -/
theorem encodeMessageAt_lays (version : UInt8) (counter : UInt32) (ratchetKey : Bytes) (ciphertextLength : Nat)
    (output : Pointer B) (memory : Memory B) :
    ∃ keyPos pieces,
      (encodeMessageAt version counter ratchetKey.length ciphertextLength output memory).value =
        ⟨output + keyPos, output + (messageHeader version counter ratchetKey ciphertextLength).length⟩ ∧
      (encodeMessageAt version counter ratchetKey.length ciphertextLength output).Lays memory output pieces ∧
      SideBySide 0 (pieces ++ [(keyPos, ratchetKey)]) (messageHeader version counter ratchetKey ciphertextLength) := by
  obtain ⟨keyHeader, hkeyHeader⟩ : ∃ header, stringHeader ratchetKeyTag ratchetKey.length = header := ⟨_, rfl⟩
  obtain ⟨index, hindex⟩ : ∃ index, intField counterTag counter = index := ⟨_, rfl⟩
  obtain ⟨textHeader, htextHeader⟩ : ∃ header, stringHeader ciphertextTag ciphertextLength = header := ⟨_, rfl⟩
  have header : messageHeader version counter ratchetKey ciphertextLength =
      [[version], keyHeader, ratchetKey, index, textHeader].flatten := by
    rw [← hkeyHeader, ← hindex, ← htextHeader]
    simp [messageHeader, stringField]
  refine ⟨1 + keyHeader.length, [(0, [version]), (1, keyHeader), (1 + keyHeader.length + ratchetKey.length, index),
    (1 + keyHeader.length + ratchetKey.length + index.length, textHeader)], ?value, ?lays, ?beside⟩
  case value =>
    have behind : 1 + (keyHeader.length + ratchetKey.length) + index.length + textHeader.length =
        [[version], keyHeader, ratchetKey, index, textHeader].flatten.length := by
      simp only [List.flatten_cons, List.flatten_nil, List.append_nil, List.length_append, List.length_singleton]
      omega
    simp only [encodeMessageAt, value_bind, encodeStringAt_value, encodeIntAt_value, run_pure, header, hkeyHeader,
      hindex, htextHeader, Pointer.add_add, behind]
  case lays =>
    refine (lays_store_start memory output version).bind (lays_after_string hkeyHeader (fun memory => ?_) _)
    refine lays_after_int hindex (fun memory => ?_) memory
    refine lays_after_string htextHeader (fun memory => ?_) memory
    exact lays_pure _ memory output
  case beside =>
    refine ⟨_, header.symm, ?_⟩
    exact (((List.perm_append_singleton _ [_, _]).cons _).cons _)

/-! ### Pre-key messages -/

/-- `PreKeyMessageWriter`. -/
structure PreKeyMessageWriterAt (B : Type) where
  identityKey : Pointer B
  baseKey : Pointer B
  oneTimeKey : Pointer B
  message : Pointer B

def encodeOneTimeKeyMessageAt (version : UInt8)
    (identityKeyLength baseKeyLength oneTimeKeyLength messageLength : Nat) (output : Pointer B) :
    Prog B (PreKeyMessageWriterAt B) := do
  store output version
  let (pos, oneTimeKey) ← encodeStringAt (output + 1) oneTimeKeyIdTag oneTimeKeyLength
  let (pos, baseKey) ← encodeStringAt pos baseKeyTag baseKeyLength
  let (pos, identityKey) ← encodeStringAt pos identityKeyTag identityKeyLength
  let (_, message) ← encodeStringAt pos messageTag messageLength
  return ⟨identityKey, baseKey, oneTimeKey, message⟩

theorem encodeOneTimeKeyMessageAt_lays (version : UInt8) (identityKey baseKey oneTimeKey : Bytes) (messageLength : Nat)
    (output : Pointer B) (memory : Memory B) :
    ∃ oneTimePos identityPos basePos pieces,
      (encodeOneTimeKeyMessageAt version identityKey.length baseKey.length oneTimeKey.length messageLength output
          memory).value =
        ⟨output + identityPos, output + basePos, output + oneTimePos,
          output + (preKeyHeader version oneTimeKey baseKey identityKey messageLength).length⟩ ∧
      (encodeOneTimeKeyMessageAt version identityKey.length baseKey.length oneTimeKey.length messageLength
        output).Lays memory output pieces ∧
      SideBySide 0 (pieces ++ [(oneTimePos, oneTimeKey), (identityPos, identityKey), (basePos, baseKey)])
        (preKeyHeader version oneTimeKey baseKey identityKey messageLength) := by
  obtain ⟨oneTimeHeader, honeTimeHeader⟩ : ∃ header, stringHeader oneTimeKeyIdTag oneTimeKey.length = header :=
    ⟨_, rfl⟩
  obtain ⟨baseHeader, hbaseHeader⟩ : ∃ header, stringHeader baseKeyTag baseKey.length = header := ⟨_, rfl⟩
  obtain ⟨identityHeader, hidentityHeader⟩ : ∃ header, stringHeader identityKeyTag identityKey.length = header :=
    ⟨_, rfl⟩
  obtain ⟨bodyHeader, hbodyHeader⟩ : ∃ header, stringHeader messageTag messageLength = header := ⟨_, rfl⟩
  have header : preKeyHeader version oneTimeKey baseKey identityKey messageLength =
      [[version], oneTimeHeader, oneTimeKey, baseHeader, baseKey, identityHeader, identityKey, bodyHeader].flatten := by
    rw [← honeTimeHeader, ← hbaseHeader, ← hidentityHeader, ← hbodyHeader]
    simp [preKeyHeader, stringField]
  obtain ⟨basePos, hbasePos⟩ : ∃ pos, 1 + oneTimeHeader.length + oneTimeKey.length = pos := ⟨_, rfl⟩
  obtain ⟨identityPos, hidentityPos⟩ : ∃ pos, basePos + baseHeader.length + baseKey.length = pos := ⟨_, rfl⟩
  obtain ⟨bodyPos, hbodyPos⟩ : ∃ pos, identityPos + identityHeader.length + identityKey.length = pos := ⟨_, rfl⟩
  refine ⟨1 + oneTimeHeader.length, identityPos + identityHeader.length, basePos + baseHeader.length,
    [(0, [version]), (1, oneTimeHeader), (basePos, baseHeader), (identityPos, identityHeader), (bodyPos, bodyHeader)],
    ?value, ?lays, ?beside⟩
  case value =>
    have behind : bodyPos + bodyHeader.length =
        [[version], oneTimeHeader, oneTimeKey, baseHeader, baseKey, identityHeader, identityKey,
          bodyHeader].flatten.length := by
      simp only [List.flatten_cons, List.flatten_nil, List.append_nil, List.length_append, List.length_singleton]
      omega
    simp only [encodeOneTimeKeyMessageAt, value_bind, encodeStringAt_value, run_pure, header, honeTimeHeader,
      hbaseHeader, hidentityHeader, hbodyHeader, Pointer.add_add, ← Nat.add_assoc, hbasePos, hidentityPos, hbodyPos,
      behind]
  case lays =>
    refine (lays_store_start memory output version).bind (lays_after_string honeTimeHeader (fun memory => ?_) _)
    rw [hbasePos]
    refine lays_after_string hbaseHeader (fun memory => ?_) memory
    rw [hidentityPos]
    refine lays_after_string hidentityHeader (fun memory => ?_) memory
    rw [hbodyPos]
    refine lays_after_string hbodyHeader (fun memory => ?_) memory
    exact lays_pure _ memory output
  case beside =>
    refine ⟨_, header.symm, ?_⟩
    have places : laid 0 [[version], oneTimeHeader, oneTimeKey, baseHeader, baseKey, identityHeader, identityKey,
          bodyHeader] =
        [(0, [version]), (1, oneTimeHeader), (1 + oneTimeHeader.length, oneTimeKey), (basePos, baseHeader),
          (basePos + baseHeader.length, baseKey), (identityPos, identityHeader),
          (identityPos + identityHeader.length, identityKey), (bodyPos, bodyHeader)] := by
      rw [← hbodyPos, ← hidentityPos, ← hbasePos]
      rfl
    rw [places, List.perm_iff_count]
    intro piece
    simp only [List.cons_append, List.nil_append, List.count_cons, List.count_nil]
    omega

/-! ### Group messages -/

/-- `_olm_encode_group_message`: what it returns, and its `*ciphertext_ptr`. -/
def encodeGroupMessageAt (version : UInt8) (messageIndex : UInt32) (ciphertextLength : Nat) (output : Pointer B) :
    Prog B (Nat × Pointer B) := do
  store output version
  let pos ← encodeIntAt (output + 1) groupMessageIndexTag messageIndex
  let (pos, ciphertext) ← encodeStringAt pos groupCiphertextTag ciphertextLength
  return ((pos.index - output.index).toNat, ciphertext)

theorem encodeGroupMessageAt_lays (version : UInt8) (messageIndex : UInt32) (ciphertextLength : Nat)
    (output : Pointer B) (memory : Memory B) :
    ∃ pieces,
      (encodeGroupMessageAt version messageIndex ciphertextLength output memory).value =
        ((groupHeader version messageIndex ciphertextLength).length + ciphertextLength,
          output + (groupHeader version messageIndex ciphertextLength).length) ∧
      (encodeGroupMessageAt version messageIndex ciphertextLength output).Lays memory output pieces ∧
      SideBySide 0 pieces (groupHeader version messageIndex ciphertextLength) := by
  obtain ⟨index, hindex⟩ : ∃ index, intField groupMessageIndexTag messageIndex = index := ⟨_, rfl⟩
  obtain ⟨textHeader, htextHeader⟩ : ∃ header, stringHeader groupCiphertextTag ciphertextLength = header := ⟨_, rfl⟩
  have header : groupHeader version messageIndex ciphertextLength = [[version], index, textHeader].flatten := by
    rw [← hindex, ← htextHeader]
    simp [groupHeader]
  refine ⟨[(0, [version]), (1, index), (1 + index.length, textHeader)], ?value, ?lays, ?beside⟩
  case value =>
    have behind : 1 + index.length + textHeader.length = [[version], index, textHeader].flatten.length := by
      simp only [List.flatten_cons, List.flatten_nil, List.append_nil, List.length_append, List.length_singleton]
      omega
    have distance (n : Nat) : ((output + n).index - output.index).toNat = n := by
      rw [Pointer.index_add]
      omega
    simp only [encodeGroupMessageAt, value_bind, encodeStringAt_value, encodeIntAt_value, run_pure, header, hindex,
      htextHeader, Pointer.add_add, ← Nat.add_assoc, behind, distance]
  case lays =>
    refine (lays_store_start memory output version).bind (lays_after_int hindex (fun memory => ?_) _)
    refine lays_after_string htextHeader (fun memory => ?_) memory
    exact lays_pure _ memory output
  case beside => exact ⟨_, header.symm, List.Perm.refl _⟩

end RubyOlm
