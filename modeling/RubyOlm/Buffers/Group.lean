import RubyOlm.Buffers.Base64
import RubyOlm.Buffers.Cipher
import RubyOlm.Buffers.Message
import RubyOlm.Group.Encryption
import RubyOlm.Group.Inbound

/-!
# Group decryption in its buffers

`olm_group_decrypt` and `olm_group_decrypt_max_plaintext_length` over pointers. The message is decoded where it lies, and
its length is looked at afterwards.
-/

namespace RubyOlm

open Prog Pointer

inductive GroupBuffer where
  | message
  | plaintext
  deriving DecidableEq

/-! ### Base64 -/

/-- `decode_base64_length` as it is computed, in a `size_t`. -/
def decodeBase64Size (inputLength : UInt64) : UInt64 :=
  if inputLength % 4 = 1 then -1
  else 3 * ((inputLength + 2) / 4) + (inputLength + 2) % 4 - 2

/-- `_olm_decode_base64`. -/
def olmDecodeBase64At {B : Type} [DecidableEq B] (input : Pointer B) (inputLength : UInt64) (output : Pointer B) :
    Prog B UInt64 := do
  let _ ← decodeBase64At input inputLength.toNat output
  return decodeBase64Size inputLength

theorem decodeBase64Size_single {inputLength : UInt64} (single : inputLength.toNat % 4 = 1) :
    decodeBase64Size inputLength = -1 := by
  have same : inputLength % 4 = 1 := by
    rw [← UInt64.toNat_inj, UInt64.toNat_mod]
    exact single
  rw [decodeBase64Size, if_pos same]

theorem decodeBase64Size_toNat {inputLength : UInt64} (several : inputLength.toNat % 4 ≠ 1)
    (small : inputLength.toNat + 2 < 2 ^ 64) : (decodeBase64Size inputLength).toNat =
      3 * ((inputLength.toNat + 2) / 4) + (inputLength.toNat + 2) % 4 - 2 := by
  have differs : ¬ inputLength % 4 = 1 := by
    rw [← UInt64.toNat_inj, UInt64.toNat_mod]
    exact several
  rw [decodeBase64Size, if_neg differs]
  simp only [UInt64.toNat_sub, UInt64.toNat_add, UInt64.toNat_mul, UInt64.toNat_div, UInt64.toNat_mod,
    UInt64.reduceToNat]
  obtain ⟨sum, hsum⟩ : ∃ sum, 3 * ((inputLength.toNat + 2) / 4) + (inputLength.toNat + 2) % 4 = sum := ⟨_, rfl⟩
  have whole : 3 * ((inputLength.toNat + 2) / 4) < 2 ^ 64 := by omega
  have low : 2 ≤ sum := by omega
  have high : sum < 2 ^ 64 := by omega
  rw [Nat.mod_eq_of_lt small, Nat.mod_eq_of_lt whole, hsum, Nat.mod_eq_of_lt high,
    show 2 ^ 64 - 2 + sum = sum - 2 + 2 ^ 64 by omega, Nat.add_mod_right, Nat.mod_eq_of_lt (by omega)]

/-- Also where the sum in it overflows. -/
theorem decodeBase64Size_le {inputLength : UInt64} (several : inputLength.toNat % 4 ≠ 1) :
    (decodeBase64Size inputLength).toNat ≤ inputLength.toNat := by
  by_cases small : inputLength.toNat + 2 < 2 ^ 64
  · rw [decodeBase64Size_toNat several small]
    omega
  · have bound := inputLength.toNat_lt
    have last : inputLength = UInt64.ofNat (2 ^ 64 - 2) ∨ inputLength = UInt64.ofNat (2 ^ 64 - 1) := by
      rw [← UInt64.toNat_inj, ← UInt64.toNat_inj, UInt64.toNat_ofNat', UInt64.toNat_ofNat']
      omega
    obtain rfl | rfl := last
    all_goals decide

/-- The two lengths are the same, as long as there is no overflow. -/
theorem decodeBase64Size_cases {inputLength : UInt64} (small : inputLength.toNat + 2 < 2 ^ 64) :
    (decodeBase64Size inputLength = -1 ∧ decodeBase64Length inputLength.toNat = none) ∨
      (decodeBase64Size inputLength ≠ -1 ∧ (decodeBase64Size inputLength).toNat ≤ inputLength.toNat ∧
        decodeBase64Length inputLength.toNat = some (decodeBase64Size inputLength).toNat) := by
  by_cases single : inputLength.toNat % 4 = 1
  · exact .inl ⟨decodeBase64Size_single single, decodeBase64Length_eq_none_iff.mpr single⟩
  · have size := decodeBase64Size_toNat single small
    have differs : ¬ decodeBase64Size inputLength = -1 := by
      intro same
      rw [same, show (-1 : UInt64).toNat = 2 ^ 64 - 1 from rfl] at size
      omega
    refine .inr ⟨differs, decodeBase64Size_le single, ?_⟩
    rw [decodeBase64Length, if_neg single, size]

namespace InboundGroupSession

/-! ### Decryption -/

variable (fuel : Nat) (crypto : Crypto) (session : InboundGroupSession)

/-- `_decrypt_max_plaintext_length`, where the loops of the decoder may take `fuel` turns each. -/
def decryptMaxPlaintextLengthRawAt (stack : GroupMessageResultsAt GroupBuffer) (messageLength : UInt64) :
    Scan GroupBuffer (InboundGroupSession × Option Nat) := do
  let decoded ← decodeGroupMessageAt fuel stack (start .message) messageLength
    (UInt64.ofNat (megolmCipher crypto).macLength) (UInt64.ofNat signatureLength)
  if decoded.version ≠ protocolVersion then return ({ session with lastError := .badMessageVersion }, none)
  else
    match decoded.ciphertext.value with
    | none => return ({ session with lastError := .badMessageFormat }, none)
    | some _ => return (session, some ((megolmCipher crypto).decryptMaxPlaintextLength decoded.ciphertext.length))

/-- `olm_group_decrypt_max_plaintext_length`. -/
def decryptMaxPlaintextLengthAt (stack : GroupMessageResultsAt GroupBuffer) (messageLength : UInt64) :
    Scan GroupBuffer (InboundGroupSession × Option Nat) := do
  let rawLength ← olmDecodeBase64At (start GroupBuffer.message) messageLength (start .message)
  if rawLength = -1 then return ({ session with lastError := .invalidBase64 }, none)
  else session.decryptMaxPlaintextLengthRawAt fuel crypto stack rawLength

/-- What `olm_group_decrypt` leaves behind, next to what is in memory. -/
structure DecryptedAt where
  session : InboundGroupSession
  messageIndex : Option UInt32
  plaintextLength : Option Nat

/-- `_decrypt` from the signature on. -/
def decryptSignedAt (messageIndex : UInt32) (messageLength : UInt64) (ciphertext : Pointer GroupBuffer)
    (ciphertextLength maxPlaintextLength : Nat) : Prog GroupBuffer DecryptedAt := do
  let index := some messageIndex
  let messageLength := messageLength - UInt64.ofNat signatureLength
  let signed ← loadBytes (start .message) messageLength.toNat
  let signature ← loadBytes (start .message + messageLength.toNat) signatureLength
  if ¬ crypto.ed25519.verify (Block.load 64 signature) signed session.signingKey then
    return ⟨{ session with lastError := .badSignature }, index, none⟩
  else if maxPlaintextLength < (megolmCipher crypto).decryptMaxPlaintextLength ciphertextLength then
    return ⟨{ session with lastError := .outputBufferTooSmall }, index, none⟩
  else
    match session.getMegolm crypto messageIndex with
    | (session, none) => return ⟨session, index, none⟩
    | (session, some megolm) =>
      let result ← aesSha256DecryptAt crypto.kdf crypto.aes (ascii "MEGOLM_KEYS") megolm.getData.val (start .message)
        messageLength.toNat ciphertext ciphertextLength (start .plaintext) maxPlaintextLength
      return match result with
        | none => ⟨{ session with lastError := .badMessageMac }, index, none⟩
        | some length => ⟨{ session with signingKeyVerified := true }, index, some length⟩

/-- `_decrypt`. -/
def decryptRawAt (stack : GroupMessageResultsAt GroupBuffer) (messageLength : UInt64) (maxPlaintextLength : Nat) :
    Scan GroupBuffer DecryptedAt := do
  let decoded ← decodeGroupMessageAt fuel stack (start .message) messageLength
    (UInt64.ofNat (megolmCipher crypto).macLength) (UInt64.ofNat signatureLength)
  if decoded.version ≠ protocolVersion then return ⟨{ session with lastError := .badMessageVersion }, none, none⟩
  else
    match decoded.hasMessageIndex, decoded.ciphertext.value with
    | true, some ciphertext =>
      session.decryptSignedAt crypto decoded.messageIndex messageLength ciphertext decoded.ciphertext.length
        maxPlaintextLength
    | _, _ => return ⟨{ session with lastError := .badMessageFormat }, none, none⟩

/-- `olm_group_decrypt`. -/
def decryptAt (stack : GroupMessageResultsAt GroupBuffer) (messageLength : UInt64) (maxPlaintextLength : Nat) :
    Scan GroupBuffer DecryptedAt := do
  let rawLength ← olmDecodeBase64At (start GroupBuffer.message) messageLength (start .message)
  if rawLength = -1 then return ⟨{ session with lastError := .invalidBase64 }, none, none⟩
  else session.decryptRawAt fuel crypto stack rawLength maxPlaintextLength

end InboundGroupSession

/-! ### What is touched -/

/-- An access of the message, if it is one, stays inside it. -/
def InMessage (messageLength : Nat) (access : Access GroupBuffer) : Prop :=
  Inside access.kind .message messageLength access

variable {messageLength : Nat} {kind : AccessKind} {memory : Memory GroupBuffer}

theorem covers_inMessage {start' n : Nat} :
    Covers (InMessage messageLength) kind (start .message + start') n ↔ n = 0 ∨ start' + n ≤ messageLength := by
  refine Iff.trans (covers_inside_add start' n) ?_
  simp

theorem covers_plaintext {n : Nat} : Covers (InMessage messageLength) kind (start .plaintext) n := by
  intro i _ _ other
  cases other

theorem olmDecodeBase64At_within {messageLength : UInt64} :
    (olmDecodeBase64At (start .message) messageLength (start .message)).Within memory (InMessage messageLength.toNat) ↔
      messageLength.toNat % 4 ≠ 1 := by
  have reads : decodeBase64Reads messageLength.toNat ≤ messageLength.toNat ↔ messageLength.toNat % 4 ≠ 1 := by
    unfold decodeBase64Reads
    split <;> omega
  have writes : decodeBase64Writes messageLength.toNat ≤ messageLength.toNat := by
    unfold decodeBase64Writes
    omega
  rw [olmDecodeBase64At, within_bind, decodeBase64At_within, ← Pointer.add_zero (start GroupBuffer.message),
    covers_inMessage, covers_inMessage, ← reads, Nat.zero_add, Nat.zero_add]
  refine ⟨fun within => ?_, fun long => ⟨⟨.inr long, .inr writes⟩, within_pure _ _⟩⟩
  rcases within.1.1 with none | long
  · exact none.le.trans (Nat.zero_le _)
  · exact long

namespace InboundGroupSession

variable (crypto : Crypto) (session : InboundGroupSession)

theorem toNat_sub_signature {rawLength : UInt64} (long : signatureLength ≤ rawLength.toNat) :
    (rawLength - UInt64.ofNat signatureLength).toNat = rawLength.toNat - signatureLength := by
  have small := rawLength.toNat_lt
  rw [UInt64.toNat_sub, show (UInt64.ofNat signatureLength).toNat = signatureLength from rfl]
  omega

/-- Whole blocks may end behind the ciphertext, but not behind the trailers. -/
theorem decryptSignedAt_within {rawLength : UInt64} {start' ciphertextLength : Nat} (messageIndex : UInt32)
    (maxPlaintextLength : Nat) (fits : start' + ciphertextLength + 72 ≤ rawLength.toNat)
    (inside : rawLength.toNat ≤ messageLength) :
    (session.decryptSignedAt crypto messageIndex rawLength (start .message + start') ciphertextLength
      maxPlaintextLength).Within memory (InMessage messageLength) := by
  have signature : signatureLength = 64 := rfl
  have before := toNat_sub_signature (show signatureLength ≤ rawLength.toNat by omega)
  have front : Covers (InMessage messageLength) .read (start .message) (rawLength.toNat - signatureLength) := by
    rw [← Pointer.add_zero (start GroupBuffer.message), covers_inMessage]
    omega
  unfold decryptSignedAt
  dsimp only
  rw [before, within_bind, within_loadBytes, within_bind, within_loadBytes, covers_inMessage]
  refine ⟨front, .inr (by omega), ?_⟩
  split
  · exact within_pure _ _
  split
  · exact within_pure _ _
  · rename_i room
    have room : ciphertextLength ≤ maxPlaintextLength := Nat.not_lt.mp room
    have long : cipherMacLength ≤ rawLength.toNat - signatureLength := by
      rw [cipherMacLength]
      omega
    split
    · exact within_pure _ _
    · rw [within_bind, aesSha256DecryptAt_within _ _ _ _ _ _ _ _ room long]
      refine ⟨⟨front, fun _ => ⟨covers_inMessage.mpr (by omega), covers_plaintext, covers_plaintext, ?_⟩⟩,
        within_pure _ _⟩
      intro _ other
      cases other

/-! ### The decoder -/

/-- The results as they were before, over byte strings. -/
def stackResults (stack : GroupMessageResultsAt GroupBuffer) : GroupMessageResults :=
  ⟨stack.version, stack.messageIndex, stack.hasMessageIndex, none⟩

/-- What the decoder finds. -/
def decodedFrom (stack : GroupMessageResultsAt GroupBuffer) (rawLength : UInt64) (memory : Memory GroupBuffer) :
    GroupMessageResults :=
  decodeGroupMessage (stackResults stack) (memory.read (start .message) rawLength.toNat) cipherMacLength signatureLength

variable {fuel : Nat} {stack : GroupMessageResultsAt GroupBuffer} {rawLength : UInt64}

theorem decode_ends (enough : rawLength.toNat < fuel) :
    Scan.Ends (decodeGroupMessageAt fuel stack (start .message) rawLength
        (UInt64.ofNat (megolmCipher crypto).macLength) (UInt64.ofNat signatureLength)) memory
      (ReadsIn (start .message) (rawLength.toNat - 72)) (.of (start .message) (decodedFrom stack rawLength memory)) :=
  decodeGroupMessageAt_ends memory (start .message) enough stack 8 64

theorem decode_within (enough : rawLength.toNat < fuel) (inside : rawLength.toNat ≤ messageLength) :
    Prog.Within (decodeGroupMessageAt fuel stack (start .message) rawLength
        (UInt64.ofNat (megolmCipher crypto).macLength) (UInt64.ofNat signatureLength)).run memory
      (InMessage messageLength) := by
  intro access touched
  obtain ⟨-, i, lt, place⟩ := (decode_ends crypto enough).within access touched
  have covered : Covers (InMessage messageLength) access.kind (start .message + 0) messageLength :=
    covers_inMessage.mpr (.inr (by omega))
  have allowed := covered i (by omega)
  rwa [Pointer.add_zero, ← place] at allowed

/-- A ciphertext is only found in front of the trailers. -/
theorem decodedFrom_fits {span : Span} (found : (decodedFrom stack rawLength memory).ciphertext = some span) :
    span.start + span.length + 72 ≤ rawLength.toNat := by
  obtain ⟨input, hinput⟩ : ∃ input, memory.read (start .message) rawLength.toNat = input := ⟨_, rfl⟩
  have length : input.length = rawLength.toNat := by
    rw [← hinput, Memory.length_read]
  rw [decodedFrom, hinput] at found
  by_cases short : rawLength.toNat ≤ 72
  · have early : input.length ≤ (cipherMacLength + signatureLength) % 2 ^ 64 := by
      rw [length]
      exact short
    rw [decodeGroupMessage_none input early] at found
    cases found
  · have late : (cipherMacLength + signatureLength) % 2 ^ 64 < input.length := by
      rw [length]
      exact Nat.not_le.mp short
    have fits : span.start + span.length ≤ input.length - 72 :=
      ((decodeGroupMessage_inside input _ late).ciphertext span found).fits
    omega

theorem decryptMaxPlaintextLengthRawAt_within (enough : rawLength.toNat < fuel)
    (inside : rawLength.toNat ≤ messageLength) :
    Prog.Within (session.decryptMaxPlaintextLengthRawAt fuel crypto stack rawLength).run memory
      (InMessage messageLength) := by
  unfold decryptMaxPlaintextLengthRawAt
  rw [(decode_ends crypto enough).within_bind]
  refine ⟨decode_within crypto enough inside, ?_⟩
  split
  · exact within_pure _ _
  · split <;> exact within_pure _ _

theorem decryptRawAt_within (maxPlaintextLength : Nat) (enough : rawLength.toNat < fuel)
    (inside : rawLength.toNat ≤ messageLength) :
    Prog.Within (session.decryptRawAt fuel crypto stack rawLength maxPlaintextLength).run memory
      (InMessage messageLength) := by
  obtain ⟨results, hresults⟩ : ∃ results, decodedFrom stack rawLength memory = results := ⟨_, rfl⟩
  have ends := @decode_ends memory crypto fuel stack rawLength enough
  rw [hresults] at ends
  unfold decryptRawAt
  rw [ends.within_bind]
  refine ⟨decode_within crypto enough inside, ?_⟩
  obtain ⟨version, messageIndex, has, found⟩ := results
  split
  · exact within_pure _ _
  · cases found with
    | none => cases has <;> exact within_pure _ _
    | some span =>
      cases has with
      | false => exact within_pure _ _
      | true =>
        have fits := decodedFrom_fits (congrArg GroupMessageResults.ciphertext hresults)
        exact Scan.within_run_lift.mpr (decryptSignedAt_within crypto session messageIndex maxPlaintextLength fits inside)

/-! ### What is returned -/

/-- The same functions, where a read outside the ciphertext or the plaintext finds what memory holds there. -/
def surrounded (span : Span) (memory : Memory GroupBuffer) : Crypto :=
  { crypto with aes := crypto.aes.around memory (start .message + span.start) span.length (start .plaintext) }

/-- What is said and left behind is `result`, with the plaintext in its buffer. -/
def Leaves (program : Scan GroupBuffer DecryptedAt) (memory : Memory GroupBuffer) (result : Decrypted) : Prop :=
  (program.run memory).value = some ⟨result.session, result.messageIndex, result.plaintext.map List.length⟩ ∧
    ∀ text, result.plaintext = some text → (program.run memory).memory.read (start .plaintext) text.length = text

omit fuel stack rawLength in
theorem leaves_lift {x : Prog GroupBuffer DecryptedAt} {result : Decrypted} :
    Leaves (liftM x) memory result ↔
      (x memory).value = ⟨result.session, result.messageIndex, result.plaintext.map List.length⟩ ∧
        ∀ text, result.plaintext = some text → (x memory).memory.read (start .plaintext) text.length = text :=
  and_congr_left' Option.some_inj

/-- `decryptRaw` from the signature on. -/
def decryptSigned (message : Bytes) (messageIndex : UInt32) (ciphertext : Span) (maxPlaintextLength : Nat) : Decrypted :=
  let index := some messageIndex
  let messageLength := message.length - signatureLength
  let signed := message.take messageLength
  if ¬ crypto.ed25519.verify (Block.load 64 (message.drop messageLength)) signed session.signingKey then
    ⟨{ session with lastError := .badSignature }, index, none⟩
  else if maxPlaintextLength < (megolmCipher crypto).decryptMaxPlaintextLength ciphertext.length then
    ⟨{ session with lastError := .outputBufferTooSmall }, index, none⟩
  else
    match session.getMegolm crypto messageIndex with
    | (session, none) => ⟨session, index, none⟩
    | (session, some megolm) =>
      match (megolmCipher crypto).decrypt megolm signed (ciphertext.read message) maxPlaintextLength with
      | none => ⟨{ session with lastError := .badMessageMac }, index, none⟩
      | some plaintext => ⟨{ session with signingKeyVerified := true }, index, some plaintext⟩

theorem decryptRaw_eq {results : GroupMessageResults} {message : Bytes} {maxPlaintextLength : Nat}
    {stack' : GroupMessageResults}
    (decoded : decodeGroupMessage stack' message cipherMacLength signatureLength = results) :
    session.decryptRaw crypto stack' message maxPlaintextLength =
      if results.version ≠ protocolVersion then ⟨{ session with lastError := .badMessageVersion }, none, none⟩
      else
        match results.hasMessageIndex, results.ciphertext with
        | true, some ciphertext =>
          session.decryptSigned crypto message results.messageIndex ciphertext maxPlaintextLength
        | _, _ => ⟨{ session with lastError := .badMessageFormat }, none, none⟩ := by
  subst decoded
  rfl

theorem decryptSignedAt_leaves (messageIndex : UInt32) (maxPlaintextLength : Nat) {span : Span}
    (fits : span.start + span.length + 72 ≤ rawLength.toNat) :
    Leaves (liftM (session.decryptSignedAt crypto messageIndex rawLength (start .message + span.start) span.length
        maxPlaintextLength) : Scan GroupBuffer DecryptedAt) memory
      (session.decryptSigned (surrounded crypto span memory) (memory.read (start .message) rawLength.toNat) messageIndex
        span maxPlaintextLength) := by
  have trailer : signatureLength = 64 := rfl
  have before := toNat_sub_signature (show signatureLength ≤ rawLength.toNat by omega)
  have signed : (memory.read (start .message) rawLength.toNat).take (rawLength.toNat - signatureLength) =
      memory.read (start .message) (rawLength.toNat - signatureLength) := Memory.take_read _ _ (Nat.sub_le _ _)
  have signature : (memory.read (start .message) rawLength.toNat).drop (rawLength.toNat - signatureLength) =
      memory.read (start .message + (rawLength.toNat - signatureLength)) signatureLength := by
    rw [Memory.drop_read, Nat.sub_sub_self (by omega)]
  have text : span.read (memory.read (start .message) rawLength.toNat) =
      memory.read (start .message + span.start) span.length := Memory.slice_read _ _ (by omega)
  have same : session.getMegolm (surrounded crypto span memory) messageIndex = session.getMegolm crypto messageIndex :=
    rfl
  have ed25519 : (surrounded crypto span memory).ed25519 = crypto.ed25519 := rfl
  have room : (megolmCipher (surrounded crypto span memory)).decryptMaxPlaintextLength span.length =
    (megolmCipher crypto).decryptMaxPlaintextLength span.length := rfl
  unfold decryptSigned decryptSignedAt
  dsimp only
  rw [Memory.length_read, signed, signature, text, same, ed25519, room, before, leaves_lift, value_bind, value_bind,
    memory_bind, memory_bind, value_loadBytes, value_loadBytes, memory_loadBytes, memory_loadBytes]
  by_cases valid : crypto.ed25519.verify
      (Block.load 64 (memory.read (start .message + (rawLength.toNat - signatureLength)) signatureLength))
      (memory.read (start .message) (rawLength.toNat - signatureLength)) session.signingKey = true
  case neg =>
    simp only [if_pos valid]
    exact ⟨rfl, fun text impossible => (nomatch impossible)⟩
  simp only [if_neg (not_not.mpr valid)]
  by_cases small : maxPlaintextLength < (megolmCipher crypto).decryptMaxPlaintextLength span.length
  · simp only [if_pos small]
    exact ⟨rfl, fun text impossible => (nomatch impossible)⟩
  simp only [if_neg small]
  obtain ⟨⟨left, _ | megolm⟩, hmegolm⟩ : ∃ found, session.getMegolm crypto messageIndex = found := ⟨_, rfl⟩
  · rw [hmegolm]
    exact ⟨rfl, fun text impossible => (nomatch impossible)⟩
  · obtain ⟨value, kept⟩ := aesSha256DecryptAt_eq crypto.kdf crypto.aes (ascii "MEGOLM_KEYS") megolm.getData.val
      (start .message) (start .message + span.start) (start .plaintext) (rawLength.toNat - signatureLength) span.length
      maxPlaintextLength memory (Aes.clear_other (by simp) _ _)
    have opens : (megolmCipher (surrounded crypto span memory)).decrypt megolm
        (memory.read (start .message) (rawLength.toNat - signatureLength))
        (memory.read (start .message + span.start) span.length) maxPlaintextLength =
      (aesSha256 crypto.kdf (crypto.aes.around memory (start .message + span.start) span.length (start .plaintext))
        (ascii "MEGOLM_KEYS")).decrypt megolm.getData.val
        (memory.read (start .message) (rawLength.toNat - signatureLength))
        (memory.read (start .message + span.start) span.length) maxPlaintextLength := rfl
    rw [hmegolm]
    dsimp only
    rw [value_bind, memory_bind, value, opens]
    cases opened : (aesSha256 crypto.kdf
        (crypto.aes.around memory (start .message + span.start) span.length (start .plaintext))
        (ascii "MEGOLM_KEYS")).decrypt megolm.getData.val
        (memory.read (start .message) (rawLength.toNat - signatureLength))
        (memory.read (start .message + span.start) span.length) maxPlaintextLength with
    | none => exact ⟨rfl, fun text impossible => (nomatch impossible)⟩
    | some plaintext =>
      refine ⟨rfl, ?_⟩
      rintro text ⟨⟩
      exact kept plaintext opened

/-- For the ciphertext that is found, if one is. -/
def surroundings (stack : GroupMessageResultsAt GroupBuffer) (rawLength : UInt64) (memory : Memory GroupBuffer) : Crypto :=
  match (decodedFrom stack rawLength memory).ciphertext with
  | none => crypto
  | some span => surrounded crypto span memory

theorem decryptRawAt_leaves (maxPlaintextLength : Nat) (enough : rawLength.toNat < fuel) :
    Leaves (session.decryptRawAt fuel crypto stack rawLength maxPlaintextLength) memory
      (session.decryptRaw (surroundings crypto stack rawLength memory) (stackResults stack)
        (memory.read (start .message) rawLength.toNat) maxPlaintextLength) := by
  obtain ⟨results, hresults⟩ : ∃ results, decodedFrom stack rawLength memory = results := ⟨_, rfl⟩
  have ends := @decode_ends memory crypto fuel stack rawLength enough
  rw [hresults] at ends
  have decoded : decodeGroupMessage (stackResults stack) (memory.read (start .message) rawLength.toNat) cipherMacLength
    signatureLength = results := hresults
  unfold decryptRawAt
  rw [Leaves, ends.value_bind, ends.memory_bind, decryptRaw_eq _ _ decoded, surroundings, hresults,
    GroupMessageResultsAt.version_of]
  by_cases known : results.version = protocolVersion
  case neg =>
    rw [if_pos known, if_pos known]
    exact ⟨rfl, fun text impossible => (nomatch impossible)⟩
  rw [if_neg (not_not.mpr known), if_neg (not_not.mpr known)]
  obtain ⟨version, messageIndex, has, found⟩ := results
  cases found with
  | none => cases has <;> exact ⟨rfl, fun text impossible => (nomatch impossible)⟩
  | some span =>
    cases has with
    | false => exact ⟨rfl, fun text impossible => (nomatch impossible)⟩
    | true =>
      have fits := decodedFrom_fits (congrArg GroupMessageResults.ciphertext hresults)
      exact decryptSignedAt_leaves crypto session messageIndex maxPlaintextLength fits

theorem decryptMaxPlaintextLengthRawAt_value (enough : rawLength.toNat < fuel) :
    ((session.decryptMaxPlaintextLengthRawAt fuel crypto stack rawLength).run memory).value =
      some (session.decryptMaxPlaintextLengthRaw crypto (stackResults stack)
        (memory.read (start .message) rawLength.toNat)) := by
  obtain ⟨results, hresults⟩ : ∃ results, decodedFrom stack rawLength memory = results := ⟨_, rfl⟩
  have ends := @decode_ends memory crypto fuel stack rawLength enough
  rw [hresults] at ends
  have decoded : decodeGroupMessage (stackResults stack) (memory.read (start .message) rawLength.toNat)
    (megolmCipher crypto).macLength signatureLength = results := hresults
  unfold decryptMaxPlaintextLengthRawAt decryptMaxPlaintextLengthRaw
  rw [ends.value_bind, decoded, GroupMessageResultsAt.version_of]
  by_cases known : results.version = protocolVersion
  case neg =>
    rw [if_pos known, if_pos known]
    rfl
  rw [if_neg (not_not.mpr known), if_neg (not_not.mpr known)]
  obtain ⟨version, messageIndex, has, _ | span⟩ := results <;> rfl

/-! ### Messages in base64 -/

variable {messageLength : UInt64}

/-- Memory with the message decoded where it lay. -/
def decodedMemory (messageLength : UInt64) (memory : Memory GroupBuffer) : Memory GroupBuffer :=
  (olmDecodeBase64At (start .message) messageLength (start .message) memory).memory

theorem decodedMemory_eq (several : messageLength.toNat % 4 ≠ 1) :
    decodedMemory messageLength memory =
      memory.write (start .message) (decodeBase64 (memory.read (start .message) messageLength.toNat)) := by
  have left := decodeBase64At_memory (start GroupBuffer.message) (start .message) messageLength.toNat memory
    (fun _ => Int.le_refl _)
  rw [decodeBase64Reads, if_neg several] at left
  exact left

theorem read_decodedMemory {length : Nat} (decodes : decodeBase64Length messageLength.toNat = some length) :
    (decodedMemory messageLength memory).read (start .message) length =
      decodeBase64 (memory.read (start .message) messageLength.toNat) := by
  have several : messageLength.toNat % 4 ≠ 1 := fun single => by
    rw [decodeBase64Length_eq_none_iff.mpr single] at decodes
    cases decodes
  rw [decodedMemory_eq several]
  exact Memory.read_write_of_length _ _ _ (length_decodeBase64 _ (by rw [Memory.length_read, decodes]))

/-- `olm_group_decrypt` of a message in memory leaves what it makes of the text. -/
theorem decryptAt_leaves (maxPlaintextLength : Nat) (enough : messageLength.toNat < fuel)
    (small : messageLength.toNat + 2 < 2 ^ 64) :
    Leaves (session.decryptAt fuel crypto stack messageLength maxPlaintextLength) memory
      (session.decrypt (surroundings crypto stack (decodeBase64Size messageLength) (decodedMemory messageLength memory))
        (stackResults stack) (memory.read (start .message) messageLength.toNat) maxPlaintextLength) := by
  unfold decryptAt decrypt
  rw [Leaves, Scan.value_lift, Scan.memory_lift, Memory.length_read]
  change Leaves (if decodeBase64Size messageLength = -1 then
      pure ⟨{ session with lastError := .invalidBase64 }, none, none⟩
    else session.decryptRawAt fuel crypto stack (decodeBase64Size messageLength) maxPlaintextLength)
    (decodedMemory messageLength memory) _
  rcases decodeBase64Size_cases small with ⟨refused, size⟩ | ⟨decoded, le, size⟩
  · rw [if_pos refused, size]
    exact ⟨rfl, fun text impossible => (nomatch impossible)⟩
  · rw [if_neg decoded, size, ← read_decodedMemory size]
    exact decryptRawAt_leaves crypto session maxPlaintextLength (Nat.lt_of_le_of_lt le enough)

theorem decryptMaxPlaintextLengthAt_value (enough : messageLength.toNat < fuel)
    (small : messageLength.toNat + 2 < 2 ^ 64) :
    ((session.decryptMaxPlaintextLengthAt fuel crypto stack messageLength).run memory).value =
      some (session.decryptMaxPlaintextLength crypto (stackResults stack)
        (memory.read (start .message) messageLength.toNat)) := by
  unfold decryptMaxPlaintextLengthAt decryptMaxPlaintextLength
  rw [Scan.value_lift, Memory.length_read]
  change ((if decodeBase64Size messageLength = -1 then pure ({ session with lastError := .invalidBase64 }, none)
    else session.decryptMaxPlaintextLengthRawAt fuel crypto stack (decodeBase64Size messageLength) :
      Scan GroupBuffer (InboundGroupSession × Option Nat)).run (decodedMemory messageLength memory)).value = _
  rcases decodeBase64Size_cases small with ⟨refused, size⟩ | ⟨decoded, le, size⟩
  · rw [if_pos refused, size]
    rfl
  · rw [if_neg decoded, size, ← read_decodedMemory size]
    exact decryptMaxPlaintextLengthRawAt_value crypto session (Nat.lt_of_le_of_lt le enough)

/-! ### Whole calls -/

section Calls

variable {Result : Type} {refused : Result} {next : UInt64 → Scan GroupBuffer Result}

/-- A call goes on with the length that was decoded, or stops. -/
theorem afterBase64_within
    (within : ∀ rawLength memory, rawLength.toNat ≤ messageLength.toNat →
      Prog.Within (next rawLength).run memory (InMessage messageLength.toNat)) :
    Prog.Within (do
        let rawLength ← olmDecodeBase64At (start GroupBuffer.message) messageLength (start .message)
        if rawLength = -1 then return refused else next rawLength : Scan GroupBuffer Result).run memory
      (InMessage messageLength.toNat) ↔ messageLength.toNat % 4 ≠ 1 := by
  rw [Scan.within_lift, olmDecodeBase64At_within]
  refine ⟨And.left, fun several => ⟨several, ?_⟩⟩
  split
  · exact within_pure _ _
  · exact within _ _ (decodeBase64Size_le several)

theorem afterBase64_ends
    (ends : ∀ rawLength memory, rawLength.toNat ≤ messageLength.toNat → ((next rawLength).run memory).value.isSome) :
    ((do
        let rawLength ← olmDecodeBase64At (start GroupBuffer.message) messageLength (start .message)
        if rawLength = -1 then return refused else next rawLength : Scan GroupBuffer Result).run memory).value.isSome := by
  rw [Scan.value_lift]
  split
  · rfl
  · rename_i decoded
    refine ends _ _ (decodeBase64Size_le fun single => ?_)
    exact decoded (decodeBase64Size_single single)

end Calls

theorem decryptAt_within (maxPlaintextLength : Nat) (enough : messageLength.toNat < fuel) :
    Prog.Within (session.decryptAt fuel crypto stack messageLength maxPlaintextLength).run memory
      (InMessage messageLength.toNat) ↔ messageLength.toNat % 4 ≠ 1 :=
  afterBase64_within fun _ _ le => decryptRawAt_within crypto session maxPlaintextLength (Nat.lt_of_le_of_lt le enough) le

theorem decryptMaxPlaintextLengthAt_within (enough : messageLength.toNat < fuel) :
    Prog.Within (session.decryptMaxPlaintextLengthAt fuel crypto stack messageLength).run memory
      (InMessage messageLength.toNat) ↔ messageLength.toNat % 4 ≠ 1 :=
  afterBase64_within fun _ _ le =>
    decryptMaxPlaintextLengthRawAt_within crypto session (Nat.lt_of_le_of_lt le enough) le

/-- On every message both calls come to an end, and they keep to the message exactly when its length is not one that
they refuse once it has been decoded. -/
theorem group_decrypt_contained_iff (memory : Memory GroupBuffer) (stack : GroupMessageResultsAt GroupBuffer)
    (maxPlaintextLength : Nat) (enough : messageLength.toNat < fuel) :
    (((session.decryptAt fuel crypto stack messageLength maxPlaintextLength).run memory).value.isSome ∧
      (Prog.Within (session.decryptAt fuel crypto stack messageLength maxPlaintextLength).run memory
        (InMessage messageLength.toNat) ↔ messageLength.toNat % 4 ≠ 1)) ∧
    ((session.decryptMaxPlaintextLengthAt fuel crypto stack messageLength).run memory).value.isSome ∧
      (Prog.Within (session.decryptMaxPlaintextLengthAt fuel crypto stack messageLength).run memory
        (InMessage messageLength.toNat) ↔ messageLength.toNat % 4 ≠ 1) := by
  refine ⟨⟨?_, decryptAt_within crypto session maxPlaintextLength enough⟩, ?_,
    decryptMaxPlaintextLengthAt_within crypto session enough⟩
  · refine afterBase64_ends fun rawLength memory le => ?_
    rw [(decryptRawAt_leaves crypto session maxPlaintextLength (Nat.lt_of_le_of_lt le enough)).1]
    rfl
  · refine afterBase64_ends fun rawLength memory le => ?_
    rw [decryptMaxPlaintextLengthRawAt_value crypto session (Nat.lt_of_le_of_lt le enough)]
    rfl

def clearSender : OutboundGroupSession :=
  ⟨Megolm.init (Block.zero 128) 0, Crypto.plain.ed25519.createKeypair (Block.zero 32), .success⟩

/-- A block of ciphertext, a MAC and a signature, in base64. -/
def clearMessage : Bytes := encodeBase64 (clearSender.messageParts Crypto.plain [7]).flatten

def clearMemory : Memory GroupBuffer
  | ⟨.message, i⟩ => clearMessage.getD i.toNat 0
  | ⟨.plaintext, _⟩ => 0

theorem group_decrypt_contained_sent :
    let decrypt := (clear.decryptAt 125 Crypto.plain ⟨0, 0, false, .none⟩ 124 16).run
    let announce := (clear.decryptMaxPlaintextLengthAt 125 Crypto.plain ⟨0, 0, false, .none⟩ 124).run
    clearMessage.length = 124 ∧
      ((decrypt clearMemory).value.map DecryptedAt.plaintextLength = some (some 1) ∧
        (decrypt clearMemory).memory.read (start .plaintext) 1 = [7] ∧
        Prog.Within decrypt clearMemory (InMessage 124)) ∧
      (announce clearMemory).value.map Prod.snd = some (some 16) ∧
      Prog.Within announce clearMemory (InMessage 124) := by
  intro decrypt announce
  have enough : (124 : UInt64).toNat < 125 := by decide
  obtain ⟨⟨-, decrypts⟩, -, announces⟩ :=
    group_decrypt_contained_iff Crypto.plain clear clearMemory ⟨0, 0, false, .none⟩ 16 enough
  exact ⟨by decide +kernel, ⟨by decide +kernel, by decide +kernel, decrypts.mpr (by decide)⟩,
    by decide +kernel, announces.mpr (by decide)⟩

/-- Of a message of one character the byte behind it is read as well. -/
theorem group_decrypt_overreads :
    ¬ Prog.Within (clear.decryptAt 2 Crypto.plain ⟨0, 0, false, .none⟩ 1 0).run (fun _ => 0) (InMessage 1) ∧
      ¬ Prog.Within (clear.decryptMaxPlaintextLengthAt 2 Crypto.plain ⟨0, 0, false, .none⟩ 1).run (fun _ => 0)
        (InMessage 1) := by
  have enough : (1 : UInt64).toNat < 2 := by decide
  constructor
  · intro within
    exact (decryptAt_within Crypto.plain clear 0 enough).mp within (by decide)
  · intro within
    exact (decryptMaxPlaintextLengthAt_within Crypto.plain clear enough).mp within (by decide)

end InboundGroupSession

end RubyOlm
