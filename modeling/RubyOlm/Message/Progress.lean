import RubyOlm.Message.Format

/-!
# Arbitrary messages

Whatever the bytes of a message are, its decoder moves towards the end and never over it, and what it reports lies
between the version byte and the end.
-/

namespace RubyOlm

/-! ### Moving on -/

theorem varintSkip_mem (input : Bytes) (remaining pos : Nat) :
    pos ≤ varintSkip input remaining pos ∧ varintSkip input remaining pos ≤ pos + remaining := by
  induction remaining generalizing pos with
  | zero => exact ⟨Nat.le_refl pos, Nat.le_refl pos⟩
  | succ remaining ih =>
    rw [varintSkip]
    split
    · omega
    · have later := ih (pos + 1)
      omega

theorem lt_varintSkip (input : Bytes) {remaining : Nat} (pos : Nat) (some : 0 < remaining) :
    pos < varintSkip input remaining pos := by
  obtain ⟨remaining, rfl⟩ := Nat.exists_eq_add_one.mpr some
  rw [varintSkip]
  split
  · exact Nat.lt_succ_self pos
  · exact (varintSkip_mem input remaining (pos + 1)).1

/-- `varint_skip` up to the end of a message. -/
theorem varintSkip_reaches (input : Bytes) {fin pos : Nat} (le : pos ≤ fin) :
    pos ≤ varintSkip input (fin - pos) pos ∧ varintSkip input (fin - pos) pos ≤ fin := by
  have mem := varintSkip_mem input (fin - pos) pos
  omega

/-- Between the version byte and the end. -/
structure Span.Inside (fin : Nat) (span : Span) : Prop where
  behind : 0 < span.start
  fits : span.start + span.length ≤ fin

def StringInside (fin : Nat) (field : Option Span) : Prop := ∀ span, field = some span → span.Inside fin

/-- A number that is said to be there was read behind its tag. -/
def IntField.Inside (input : Bytes) (fin : Nat) (tag : UInt8) (field : IntField) : Prop :=
  field.has = true → ∃ varint : Span, varint.Inside fin ∧ input.getD (varint.start - 1) 0 = tag ∧
    field.value = UInt32.ofNat (varintDecode 32 (varint.read input))

theorem stringInside_none (fin : Nat) : StringInside fin none := fun _ none => nomatch none

theorem IntField.inside_absent (input : Bytes) (fin : Nat) (tag : UInt8) (value : UInt32) :
    IntField.Inside input fin tag ⟨value, false⟩ := fun absent => nomatch absent

variable (input : Bytes) {fin pos : Nat} (tag : UInt8)

theorem decodeInt_reaches (le : pos ≤ fin) (field : IntField) :
    pos ≤ (decodeInt input fin tag pos field).1 ∧ (decodeInt input fin tag pos field).1 ≤ fin := by
  unfold decodeInt
  split
  · rename_i found
    have skipped := varintSkip_reaches input (show pos + 1 ≤ fin by omega)
    dsimp only
    omega
  · exact ⟨Nat.le_refl pos, le⟩

theorem decodeInt_inside (le : pos ≤ fin) {field : IntField} (inside : field.Inside input fin tag) :
    (decodeInt input fin tag pos field).2.Inside input fin tag := by
  unfold decodeInt
  split
  · rename_i found
    have skipped := varintSkip_reaches input (show pos + 1 ≤ fin by omega)
    intro _
    refine ⟨⟨pos + 1, varintSkip input (fin - (pos + 1)) (pos + 1) - (pos + 1)⟩, ⟨?_, ?_⟩, found.2, rfl⟩
    · exact Nat.succ_pos pos
    · dsimp only
      omega
  · exact inside

theorem decodeString_reaches (le : pos ≤ fin) (field : Option Span) :
    pos ≤ (decodeString input fin tag pos field).1 ∧ (decodeString input fin tag pos field).1 ≤ fin := by
  unfold decodeString
  split
  · rename_i found
    have skipped := varintSkip_reaches input (show pos + 1 ≤ fin by omega)
    dsimp only
    split
    · exact ⟨le, Nat.le_refl fin⟩
    · dsimp only
      omega
  · exact ⟨Nat.le_refl pos, le⟩

theorem decodeString_inside (le : pos ≤ fin) {field : Option Span} (inside : StringInside fin field) :
    StringInside fin (decodeString input fin tag pos field).2 := by
  unfold decodeString
  split
  · rename_i found
    have skipped := varintSkip_reaches input (show pos + 1 ≤ fin by omega)
    dsimp only
    split
    · exact inside
    · rintro span ⟨⟩
      refine ⟨?_, ?_⟩ <;>
      · dsimp only
        omega
  · exact inside

theorem skipUnknown_reaches (lt : pos < fin) : pos < skipUnknown input fin pos ∧ skipUnknown input fin pos ≤ fin := by
  have first := lt_varintSkip input pos (Nat.sub_pos_of_lt lt)
  have skipped := varintSkip_reaches input (Nat.le_of_lt lt)
  have again := varintSkip_reaches input skipped.2
  unfold skipUnknown
  rw [if_pos (Nat.ne_of_lt lt)]
  dsimp only
  split
  · omega
  · split
    · split
      · omega
      · omega
    · exact ⟨lt, Nat.le_refl fin⟩

/-! ### The loop -/

/-- A turn that stays in front of the end and keeps what holds of the results. -/
structure Advances {Results : Type} (fin : Nat) (decode : Nat → Results → Nat × Results) (P : Results → Prop) : Prop where
  reaches : ∀ pos ≤ fin, ∀ results, pos ≤ (decode pos results).1 ∧ (decode pos results).1 ≤ fin
  keeps : ∀ pos ≤ fin, ∀ results, P results → P (decode pos results).2

section Loop

variable {Results : Type} {decode : Nat → Results → Nat × Results} {P : Results → Prop}

/-- Where the turn at `pos` ends. -/
def turnEnd (input : Bytes) (fin : Nat) (decode : Nat → Results → Nat × Results) (pos : Nat) (results : Results) : Nat :=
  if pos = (decode pos results).1 then skipUnknown input fin pos else (decode pos results).1

theorem decodeFields_succ {fin pos : Nat} (ne : pos ≠ fin) (fuel : Nat) (results : Results) :
    decodeFields input fin decode (fuel + 1) pos results =
      decodeFields input fin decode fuel (turnEnd input fin decode pos results) (decode pos results).2 := by
  rw [decodeFields, if_neg ne, turnEnd]
  dsimp only
  split
  · rename_i same
    rw [← same]
  · rfl

theorem decodeFields_fin (fuel fin : Nat) (results : Results) : decodeFields input fin decode fuel fin results = results := by
  cases fuel with
  | zero => rfl
  | succ fuel => rw [decodeFields, if_pos rfl]

variable {fin : Nat} (advances : Advances fin decode P)
include advances

theorem Advances.lt_turnEnd {pos : Nat} (lt : pos < fin) (results : Results) :
    pos < turnEnd input fin decode pos results ∧ turnEnd input fin decode pos results ≤ fin := by
  unfold turnEnd
  split
  · exact skipUnknown_reaches input lt
  · have reached := advances.reaches pos (Nat.le_of_lt lt) results
    omega

theorem Advances.decodeFields_keeps (fuel : Nat) {pos : Nat} (le : pos ≤ fin) {results : Results} (holds : P results) :
    P (decodeFields input fin decode fuel pos results) := by
  induction fuel generalizing pos results with
  | zero => exact holds
  | succ fuel ih =>
    by_cases last : pos = fin
    · rw [last, decodeFields_fin]
      exact holds
    · rw [decodeFields_succ input last]
      exact ih (advances.lt_turnEnd input (by omega) results).2 (advances.keeps pos le results holds)

/-- Any fuel that reaches the end is enough. -/
theorem Advances.decodeFields_fuel {fuel fuel' pos : Nat} (le : pos ≤ fin) (enough : fin - pos ≤ fuel)
    (enough' : fin - pos ≤ fuel') (results : Results) :
    decodeFields input fin decode fuel pos results = decodeFields input fin decode fuel' pos results := by
  induction fuel generalizing fuel' pos results with
  | zero =>
    obtain rfl : pos = fin := by omega
    rw [decodeFields_fin, decodeFields_fin]
  | succ fuel ih =>
    by_cases last : pos = fin
    · rw [last, decodeFields_fin, decodeFields_fin]
    · obtain ⟨fuel', rfl⟩ : ∃ more, fuel' = more + 1 := ⟨fuel' - 1, by omega⟩
      have moved := advances.lt_turnEnd input (show pos < fin by omega) results
      rw [decodeFields_succ input last, decodeFields_succ input last]
      exact ih moved.2 (by omega) (by omega) (decode pos results).2

end Loop

/-! ### The three decoders -/

structure MessageReader.Inside (input : Bytes) (fin : Nat) (reader : MessageReader) : Prop where
  ratchetKey : StringInside fin reader.ratchetKey
  counter : reader.counter.Inside input fin counterTag
  ciphertext : StringInside fin reader.ciphertext

structure PreKeyMessageReader.Inside (fin : Nat) (reader : PreKeyMessageReader) : Prop where
  oneTimeKey : StringInside fin reader.oneTimeKey
  baseKey : StringInside fin reader.baseKey
  identityKey : StringInside fin reader.identityKey
  message : StringInside fin reader.message

structure GroupMessageResults.Inside (input : Bytes) (fin : Nat) (results : GroupMessageResults) : Prop where
  messageIndex : IntField.Inside input fin groupMessageIndexTag ⟨results.messageIndex, results.hasMessageIndex⟩
  ciphertext : StringInside fin results.ciphertext

theorem decodeMessageFields_advances (fin : Nat) :
    Advances fin (decodeMessageFields input fin) (MessageReader.Inside input fin) where
  reaches pos le reader := by
    have key := decodeString_reaches input ratchetKeyTag le reader.ratchetKey
    have counter := decodeInt_reaches input counterTag key.2 reader.counter
    have text := decodeString_reaches input ciphertextTag counter.2 reader.ciphertext
    exact ⟨Nat.le_trans key.1 (Nat.le_trans counter.1 text.1), text.2⟩
  keeps pos le reader inside := by
    have key := decodeString_reaches input ratchetKeyTag le reader.ratchetKey
    have counter := decodeInt_reaches input counterTag key.2 reader.counter
    exact ⟨decodeString_inside input _ le inside.ratchetKey, decodeInt_inside input _ key.2 inside.counter,
      decodeString_inside input _ counter.2 inside.ciphertext⟩

theorem decodeOneTimeKeyFields_advances (fin : Nat) :
    Advances fin (decodeOneTimeKeyFields input fin) (PreKeyMessageReader.Inside fin) where
  reaches pos le reader := by
    have oneTime := decodeString_reaches input oneTimeKeyIdTag le reader.oneTimeKey
    have base := decodeString_reaches input baseKeyTag oneTime.2 reader.baseKey
    have identity := decodeString_reaches input identityKeyTag base.2 reader.identityKey
    have text := decodeString_reaches input messageTag identity.2 reader.message
    rw [decodeOneTimeKeyFields]
    exact ⟨Nat.le_trans oneTime.1 (Nat.le_trans base.1 (Nat.le_trans identity.1 text.1)), text.2⟩
  keeps pos le reader inside := by
    have oneTime := decodeString_reaches input oneTimeKeyIdTag le reader.oneTimeKey
    have base := decodeString_reaches input baseKeyTag oneTime.2 reader.baseKey
    have identity := decodeString_reaches input identityKeyTag base.2 reader.identityKey
    rw [decodeOneTimeKeyFields]
    exact ⟨decodeString_inside input _ le inside.oneTimeKey, decodeString_inside input _ oneTime.2 inside.baseKey,
      decodeString_inside input _ base.2 inside.identityKey, decodeString_inside input _ identity.2 inside.message⟩

/-- What the group decoder has found so far. -/
structure FoundInside (input : Bytes) (fin : Nat) (found : IntField × Option Span) : Prop where
  messageIndex : found.1.Inside input fin groupMessageIndexTag
  ciphertext : StringInside fin found.2

theorem decodeGroupFields_advances (fin : Nat) :
    Advances fin (decodeGroupFields input fin) (FoundInside input fin) where
  reaches pos le found := by
    have index := decodeInt_reaches input groupMessageIndexTag le found.1
    have text := decodeString_reaches input groupCiphertextTag index.2 found.2
    exact ⟨Nat.le_trans index.1 text.1, text.2⟩
  keeps pos le found inside := by
    have index := decodeInt_reaches input groupMessageIndexTag le found.1
    exact ⟨decodeInt_inside input _ le inside.messageIndex, decodeString_inside input _ index.2 inside.ciphertext⟩

theorem decodeMessage_inside (stack : MessageReader) (macLength : Nat) :
    (decodeMessage stack input macLength).Inside input (input.length - macLength) := by
  have absent {version : UInt8} : MessageReader.Inside input (input.length - macLength)
      ⟨version, { stack.counter with has := false }, none, none⟩ :=
    ⟨stringInside_none _, IntField.inside_absent input _ _ _, stringInside_none _⟩
  unfold decodeMessage
  dsimp only
  split
  · exact absent
  · split
    · exact absent
    · exact (decodeMessageFields_advances input _).decodeFields_keeps input _ (by omega) absent

theorem decodeOneTimeKeyMessage_inside (stack : PreKeyMessageReader) :
    (decodeOneTimeKeyMessage stack input).Inside input.length := by
  have absent {version : UInt8} : PreKeyMessageReader.Inside input.length ⟨version, none, none, none, none⟩ :=
    ⟨stringInside_none _, stringInside_none _, stringInside_none _, stringInside_none _⟩
  unfold decodeOneTimeKeyMessage
  dsimp only
  split
  · exact absent
  · exact (decodeOneTimeKeyFields_advances input _).decodeFields_keeps input _ (by omega) absent

/-- Without a byte before the trailers nothing is said anew about whether there is a message index. -/
theorem decodeGroupMessage_none {stack : GroupMessageResults} {macLength signatureLength : Nat}
    (none : input.length ≤ (macLength + signatureLength) % 2 ^ 64) :
    decodeGroupMessage stack input macLength signatureLength = { stack with messageIndex := 0, ciphertext := .none } := by
  unfold decodeGroupMessage
  dsimp only
  split
  · rfl
  · rw [if_pos (by omega)]

theorem decodeGroupMessage_inside (stack : GroupMessageResults) {macLength signatureLength : Nat}
    (some : (macLength + signatureLength) % 2 ^ 64 < input.length) :
    (decodeGroupMessage stack input macLength signatureLength).Inside input
      (input.length - (macLength + signatureLength) % 2 ^ 64) := by
  obtain ⟨fin, hfin⟩ : ∃ fin, input.length - (macLength + signatureLength) % 2 ^ 64 = fin := ⟨_, rfl⟩
  have absent : FoundInside input fin (⟨0, false⟩, none) := ⟨IntField.inside_absent input _ _ _, stringInside_none _⟩
  have found := (decodeGroupFields_advances input fin).decodeFields_keeps input input.length
    (show 1 ≤ fin by omega) absent
  unfold decodeGroupMessage
  rw [if_neg (by omega), hfin, if_neg (by omega)]
  exact ⟨found.messageIndex, found.ciphertext⟩

end RubyOlm
