import RubyOlm.Buffers.Base64
import RubyOlm.Buffers.Cipher
import RubyOlm.Pickle

/-!
# The encryption of pickles in one buffer

`pickle_encoding.c` over a pointer. The body lies at the end of the output, is encrypted where it lies, gets its MAC
behind it, and is encoded from there to the start. Input goes the same way back.
-/

namespace RubyOlm

open Prog

variable {B : Type} [DecidableEq B]

section PickleEncoding

variable (crypto : Crypto)

/-- How long a body is when it is encrypted and has its MAC. -/
def sealedLength (rawLength : Nat) : Nat :=
  (pickleCipher crypto).encryptCiphertextLength rawLength + (pickleCipher crypto).macLength

def encOutputPos (output : Pointer B) (rawLength : Nat) : Pointer B :=
  output + encodeBase64Length (sealedLength crypto rawLength) - sealedLength crypto rawLength

/-- `_olm_enc_output`, whose result is not checked on the way. -/
def encOutputAt (key : Bytes) (output : Pointer B) (rawLength : Nat) : Prog B Nat := do
  let ciphertextLength := (pickleCipher crypto).encryptCiphertextLength rawLength
  let length := ciphertextLength + (pickleCipher crypto).macLength
  let base64Length := encodeBase64Length length
  let rawOutput := output + base64Length - length
  let _ ← aesSha256EncryptAt crypto.kdf crypto.aes (ascii "Pickle") key rawOutput rawLength rawOutput ciphertextLength
    rawOutput length
  let _ ← encodeBase64At rawOutput length output
  return base64Length

/-- `_olm_enc_input`: the length of the body, which is left at the start of the input. Where there is no room for a
MAC, `rawLength` wraps around in the source, and the cipher refuses. -/
def encInputAt (key : Bytes) (input : Pointer B) (b64Length : Nat) : Prog B (Except OlmErrorCode Nat) :=
  match decodeBase64Length b64Length with
  | none => pure (.error .invalidBase64)
  | some encLength => do
    let _ ← decodeBase64At input b64Length input
    let rawLength := encLength - (pickleCipher crypto).macLength
    let result ← aesSha256DecryptAt crypto.kdf crypto.aes (ascii "Pickle") key input encLength input rawLength input
      rawLength
    match result with
    | none => return .error .badAccountKey
    | some length => return .ok length

/-! ### The text of a body -/

/-- What `_olm_enc_output` makes of a body. -/
def encOutput (key raw : Bytes) : Bytes :=
  encodeBase64 (sealedCiphertext crypto.kdf crypto.aes (ascii "Pickle") key raw ++
    sealedMac crypto.kdf crypto.aes (ascii "Pickle") key raw [])

theorem length_encOutput (key raw : Bytes) : (encOutput crypto key raw).length = encOutputLength crypto raw.length := by
  rw [encOutput, length_encodeBase64, List.length_append, length_sealedCiphertext, length_sealedMac]
  rfl

variable {crypto}

theorem encInput_encOutput (perm : crypto.aes.Permutation) (key raw : Bytes) :
    encInput crypto key (encOutput crypto key raw) = .ok raw := by
  obtain ⟨ciphertext, hciphertext⟩ :
    ∃ ciphertext, sealedCiphertext crypto.kdf crypto.aes (ascii "Pickle") key raw = ciphertext := ⟨_, rfl⟩
  have length : ciphertext.length = Aes.encryptCbcLength raw.length := by
    rw [← hciphertext, length_sealedCiphertext]
  have decodes : decodeBase64Length (encOutput crypto key raw).length = some (ciphertext.length + cipherMacLength) := by
    rw [encOutput, length_encodeBase64, decodeBase64Length_encode, List.length_append, length_sealedMac, hciphertext]
  have opened := aesSha256_decrypt crypto.kdf (ascii "Pickle") key raw [] perm (Nat.le_refl _)
  rw [List.nil_append, hciphertext] at opened
  have front : ciphertext.length + cipherMacLength - (pickleCipher crypto).macLength = ciphertext.length :=
    Nat.add_sub_cancel _ _
  rw [encInput, decodes]
  dsimp only
  rw [front, encOutput, decode_encodeBase64, hciphertext, List.take_left]
  rw [length, pickleCipher, opened]

theorem le_sealedLength (crypto : Crypto) (rawLength : Nat) : rawLength ≤ sealedLength crypto rawLength :=
  Nat.le_trans (Aes.le_encryptCbcLength rawLength) (Nat.le_add_right _ _)

omit [DecidableEq B] in
theorem encOutputPos_eq (output : Pointer B) (rawLength : Nat) : encOutputPos crypto output rawLength =
    output + (encOutputLength crypto rawLength - sealedLength crypto rawLength) :=
  Pointer.add_sub output (le_encodeBase64Length _)

/-! ### Output -/

variable {P : Access B → Prop}

theorem encOutputAt_within (key : Bytes) (output : Pointer B) (rawLength : Nat) (memory : Memory B) :
    (encOutputAt crypto key output rawLength).Within memory P ↔
      Covers P .read (encOutputPos crypto output rawLength) (sealedLength crypto rawLength) ∧
        Covers P .write output (encOutputLength crypto rawLength) := by
  have whole : 16 * (rawLength / 16) ≤ sealedLength crypto rawLength :=
    Nat.le_trans (Aes.whole_blocks_le rawLength) (Nat.le_add_right _ _)
  have fits : encOutputLength crypto rawLength - sealedLength crypto rawLength + sealedLength crypto rawLength =
      encOutputLength crypto rawLength := Nat.sub_add_cancel (le_encodeBase64Length _)
  obtain ⟨pos, hpos⟩ : ∃ pos, encOutputPos crypto output rawLength = pos := ⟨_, rfl⟩
  have steps : (encOutputAt crypto key output rawLength).Within memory P ↔
      ((Covers P .read pos rawLength ∧ Covers P .write pos (Aes.encryptCbcLength rawLength) ∧
          Covers P .read pos (16 * (rawLength / 16))) ∧
        Covers P .read pos (Aes.encryptCbcLength rawLength) ∧
        Covers P .write (pos + Aes.encryptCbcLength rawLength) cipherMacLength) ∧
      Covers P .read pos (sealedLength crypto rawLength) ∧
      Covers P .write output (encOutputLength crypto rawLength) := by
    have encrypted := @aesSha256EncryptAt_within B _ crypto.kdf crypto.aes (ascii "Pickle") key P pos pos pos rawLength
      (Aes.encryptCbcLength rawLength) (sealedLength crypto rawLength) memory (Nat.le_refl _) (Nat.le_add_left _ _)
    rw [show sealedLength crypto rawLength - cipherMacLength = Aes.encryptCbcLength rawLength from
      Nat.add_sub_cancel _ _] at encrypted
    rw [← encrypted, encOutputAt, within_bind, within_bind, encodeBase64At_within]
    simp only [within_pure, and_true]
    rw [← hpos]
    rfl
  rw [steps, hpos]
  constructor
  · exact And.right
  · rintro ⟨read, write⟩
    have sealed : Covers P .write pos (sealedLength crypto rawLength) := by
      rw [← hpos, encOutputPos_eq]
      exact write.sub (Nat.le_of_eq fits)
    have parts : Covers P .write pos (Aes.encryptCbcLength rawLength) ∧
        Covers P .write (pos + Aes.encryptCbcLength rawLength) cipherMacLength := (covers_add _ _).mp sealed
    exact ⟨⟨⟨read.mono (le_sealedLength crypto rawLength), parts.1, read.mono whole⟩,
      read.mono (Nat.le_add_right _ _), parts.2⟩, read, write⟩

/-- A body that lies where it was to be put is replaced by its text. -/
theorem encOutputAt_eq (key raw : Bytes) (output : Pointer B) (memory : Memory B)
    (holds : memory.read (encOutputPos crypto output raw.length) raw.length = raw) :
    (encOutputAt crypto key output raw.length memory).value = encOutputLength crypto raw.length ∧
      (encOutputAt crypto key output raw.length memory).memory = memory.write output (encOutput crypto key raw) := by
  obtain ⟨pos, hpos⟩ : ∃ pos, encOutputPos crypto output raw.length = pos := ⟨_, rfl⟩
  obtain ⟨ciphertext, hciphertext⟩ :
    ∃ ciphertext, sealedCiphertext crypto.kdf crypto.aes (ascii "Pickle") key raw = ciphertext := ⟨_, rfl⟩
  obtain ⟨mac, hmac⟩ : ∃ mac, sealedMac crypto.kdf crypto.aes (ascii "Pickle") key raw [] = mac := ⟨_, rfl⟩
  have ciphertext_length : ciphertext.length = Aes.encryptCbcLength raw.length := by
    rw [← hciphertext, length_sealedCiphertext]
  have length : (ciphertext ++ mac).length = sealedLength crypto raw.length := by
    rw [List.length_append, ciphertext_length, ← hmac, length_sealedMac]
    rfl
  rw [hpos] at holds
  -- encrypted in place, with the MAC behind it
  have left := aesSha256EncryptAt_sealed crypto.kdf crypto.aes (ascii "Pickle") key pos pos [] raw
    (Memory.read_zero memory pos) holds (Aes.clear_blocks (fun _ => Int.le_of_eq (Int.add_zero _)) _ _)
  rw [hciphertext, hmac] at left
  simp only [List.length_nil, Pointer.add_zero, Nat.zero_add] at left
  -- and replaced by its text
  have text : encodeBase64 (ciphertext ++ mac) = encOutput crypto key raw := by
    rw [encOutput, hciphertext, hmac]
  have encoded := encodeBase64At_end output (ciphertext ++ mac) memory
  rw [length, show output + _ - _ = pos from hpos, text] at encoded
  refine ⟨rfl, ?_⟩
  rw [← encoded, ← left, ← hpos]
  rfl

/-! ### Input -/

/-- The same functions, where a read outside the ciphertext finds what memory holds there when it is decrypted. -/
def surrounded (crypto : Crypto) (input : Pointer B) (b64Length : Nat) (memory : Memory B) : Crypto :=
  let rawLength := (decodeBase64Length b64Length).getD 0 - (pickleCipher crypto).macLength
  { crypto with
    aes := crypto.aes.around (memory.write input (decodeBase64 (memory.read input b64Length))) input rawLength input }

omit [DecidableEq B] in
theorem encInput_of_decodes (crypto : Crypto) (key : Bytes) {input : Bytes} {length : Nat}
    (decodes : decodeBase64Length input.length = some length) :
    let rawLength := length - (pickleCipher crypto).macLength
    encInput crypto key input = ((pickleCipher crypto).decrypt key (decodeBase64 input)
      ((decodeBase64 input).take rawLength) rawLength).elim (.error .badAccountKey) .ok := by
  rw [encInput, decodes]
  dsimp only
  cases (pickleCipher crypto).decrypt key (decodeBase64 input)
    ((decodeBase64 input).take (length - (pickleCipher crypto).macLength)) (length - (pickleCipher crypto).macLength) <;>
    rfl

/-- What is returned is the length of what `_olm_enc_input` makes of the text, and that is left in place of it. -/
theorem encInputAt_eq (key : Bytes) (input : Pointer B) (b64Length : Nat) (memory : Memory B) :
    let result := encInput (surrounded crypto input b64Length memory) key (memory.read input b64Length)
    (encInputAt crypto key input b64Length memory).value = result.map List.length ∧
      ∀ raw, result = .ok raw → (encInputAt crypto key input b64Length memory).memory.read input raw.length = raw := by
  dsimp only
  cases decodes : decodeBase64Length b64Length with
  | none =>
    have refused (crypto : Crypto) : encInput crypto key (memory.read input b64Length) = .error .invalidBase64 := by
      rw [encInput, Memory.length_read, decodes]
    rw [refused, encInputAt, decodes]
    refine ⟨rfl, ?_⟩
    intro raw impossible
    cases impossible
  | some length =>
    obtain ⟨reads, -⟩ := decodeBase64Length_eq decodes
    obtain ⟨decoded, hdecoded⟩ : ∃ decoded, decodeBase64 (memory.read input b64Length) = decoded := ⟨_, rfl⟩
    have decoded_length : decoded.length = length := by
      rw [← hdecoded]
      exact length_decodeBase64 _ (by rw [Memory.length_read, decodes])
    have left : (decodeBase64At input b64Length input memory).memory = memory.write input decoded := by
      rw [decodeBase64At_memory input input b64Length memory (fun _ => Int.le_refl _), reads, hdecoded]
    have front : (memory.write input decoded).read input (length - (pickleCipher crypto).macLength) =
        decoded.take (length - (pickleCipher crypto).macLength) := by
      rw [← Memory.take_read _ _ (Nat.sub_le length _), Memory.read_write_of_length _ _ _ decoded_length]
    have opened := aesSha256DecryptAt_eq crypto.kdf crypto.aes (ascii "Pickle") key input input input length
      (length - (pickleCipher crypto).macLength) (length - (pickleCipher crypto).macLength) (memory.write input decoded)
      (Aes.clear_blocks (fun _ => Int.le_refl _) _ _)
    dsimp only at opened
    rw [front, Memory.read_write_of_length _ _ _ decoded_length] at opened
    obtain ⟨value, kept⟩ := opened
    have same : encInput (surrounded crypto input b64Length memory) key (memory.read input b64Length) =
        ((aesSha256 crypto.kdf (crypto.aes.around (memory.write input decoded) input
            (length - (pickleCipher crypto).macLength) input) (ascii "Pickle")).decrypt key decoded
            (decoded.take (length - (pickleCipher crypto).macLength))
            (length - (pickleCipher crypto).macLength)).elim (.error .badAccountKey) .ok := by
      rw [encInput_of_decodes _ key (by rw [Memory.length_read, decodes]), hdecoded, surrounded, hdecoded, decodes]
      rfl
    rw [same, encInputAt, decodes]
    dsimp only
    rw [value_bind, memory_bind, value_bind, memory_bind, left, value]
    cases result : (aesSha256 crypto.kdf (crypto.aes.around (memory.write input decoded) input
        (length - (pickleCipher crypto).macLength) input) (ascii "Pickle")).decrypt key decoded
        (decoded.take (length - (pickleCipher crypto).macLength)) (length - (pickleCipher crypto).macLength) with
    | none =>
      refine ⟨rfl, ?_⟩
      intro raw impossible
      cases impossible
    | some text =>
      refine ⟨rfl, ?_⟩
      rintro raw ok
      obtain rfl := Except.ok.inj ok
      exact kept text result

theorem encOutput_surrounded (input : Pointer B) (b64Length : Nat) (memory : Memory B) (key raw : Bytes) :
    encOutput (surrounded crypto input b64Length memory) key raw = encOutput crypto key raw := by
  obtain ⟨aes, haes⟩ : ∃ aes, (surrounded crypto input b64Length memory).aes = aes := ⟨_, rfl⟩
  have same : aes.encrypt = crypto.aes.encrypt := by
    rw [← haes]
    rfl
  have ciphertext : sealedCiphertext crypto.kdf aes (ascii "Pickle") key raw =
      sealedCiphertext crypto.kdf crypto.aes (ascii "Pickle") key raw :=
    Aes.encryptBlocks_congr _ aes crypto.aes same _ _ _
  show encodeBase64 (sealedCiphertext crypto.kdf (surrounded crypto input b64Length memory).aes _ key raw ++
    sealedMac crypto.kdf (surrounded crypto input b64Length memory).aes _ key raw []) = _
  rw [haes, sealedMac, ciphertext]
  rfl

theorem encInput_surrounded (perm : crypto.aes.Permutation) (key raw : Bytes) (input : Pointer B) (b64Length : Nat)
    (memory : Memory B) :
    encInput (surrounded crypto input b64Length memory) key (encOutput crypto key raw) = .ok raw := by
  have kept : (surrounded crypto input b64Length memory).aes.Permutation :=
    ⟨perm.decrypt_encrypt, perm.encrypt_decrypt⟩
  rw [← encOutput_surrounded input b64Length memory]
  exact encInput_encOutput kept key raw

/-- The text of a body, wherever it lies, becomes the body again. -/
theorem encInputAt_encOutput (perm : crypto.aes.Permutation) (key raw : Bytes) (input : Pointer B)
    (memory : Memory B)
    (holds : memory.read input (encOutputLength crypto raw.length) = encOutput crypto key raw) :
    (encInputAt crypto key input (encOutputLength crypto raw.length) memory).value = .ok raw.length ∧
      (encInputAt crypto key input (encOutputLength crypto raw.length) memory).memory.read input raw.length = raw := by
  have opened := encInput_surrounded perm key raw input (encOutputLength crypto raw.length) memory
  rw [← holds] at opened
  obtain ⟨value, left⟩ := @encInputAt_eq B _ crypto key input (encOutputLength crypto raw.length) memory
  rw [opened] at value
  exact ⟨value, left raw opened⟩

end PickleEncoding

end RubyOlm
