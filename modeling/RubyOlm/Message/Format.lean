import Mathlib.Data.List.GetD
import RubyOlm.Basic

/-!
# The message formats

`message.cpp`: tagged fields behind a version byte. A pointer into a buffer is an offset from its
start. Encoders write tags and lengths and leave the fields themselves to the caller, who gets their
offsets; decoders return the ranges of the fields they found, or nothing for those they did not.
-/

namespace RubyOlm

/-! ### Varints -/

/-- The `while` loop of `varint_length`; the value itself is fuel enough. -/
def varintLengthFrom : (fuel value : Nat) → Nat
  | 0, _ => 1
  | fuel + 1, value => if value ≥ 128 then varintLengthFrom fuel (value >>> 7) + 1 else 1

def varintLength (value : Nat) : Nat := varintLengthFrom value value

def varintEncodeFrom : (fuel value : Nat) → Bytes
  | 0, value => [UInt8.ofNat value]
  | fuel + 1, value =>
    if value ≥ 128 then UInt8.ofNat (0x7F &&& value ||| 0x80) :: varintEncodeFrom fuel (value >>> 7)
    else [UInt8.ofNat value]

def varintEncode (value : Nat) : Bytes := varintEncodeFrom value value

/-- `varint_decode` into an unsigned type of `width` bits, from the last byte to the first. -/
def varintDecode (width : Nat) (varint : Bytes) : Nat :=
  varint.foldr (fun byte value => (value <<< 7) % 2 ^ width ||| (0x7F &&& byte.toNat)) 0

/-- `varint_skip`, with `remaining` bytes before the end of the input. -/
def varintSkip (input : Bytes) : (remaining pos : Nat) → Nat
  | 0, pos => pos
  | remaining + 1, pos =>
    if input.getD pos 0 &&& 0x80 = 0 then pos + 1 else varintSkip input remaining (pos + 1)

def varstringLength (stringLength : Nat) : Nat := varintLength stringLength + stringLength

/-! ### Fields -/

structure Writer where
  buffer : Bytes
  pos : Nat

namespace Writer

def put (w : Writer) (bytes : Bytes) : Writer := ⟨writeAt w.buffer w.pos bytes, w.pos + bytes.length⟩

def encodeInt (w : Writer) (tag : UInt8) (value : UInt32) : Writer :=
  (w.put [tag]).put (varintEncode value.toNat)

/-- `encode` of a string: also returns where its bytes go. -/
def encodeString (w : Writer) (tag : UInt8) (valueLength : Nat) : Writer × Nat :=
  let w := (w.put [tag]).put (varintEncode valueLength)
  ({ w with pos := w.pos + valueLength }, w.pos)

end Writer

structure Span where
  start : Nat
  length : Nat
  deriving DecidableEq

def Span.read (span : Span) (input : Bytes) : Bytes := (input.drop span.start).take span.length

structure IntField where
  value : UInt32
  has : Bool
  deriving DecidableEq

def decodeInt (input : Bytes) (fin : Nat) (tag : UInt8) (pos : Nat) (field : IntField) : Nat × IntField :=
  if pos ≠ fin ∧ input.getD pos 0 = tag then
    let valueStart := pos + 1
    let pos := varintSkip input (fin - valueStart) valueStart
    let varint := (input.drop valueStart).take (pos - valueStart)
    (pos, ⟨UInt32.ofNat (varintDecode 32 varint), true⟩)
  else (pos, field)

def decodeString (input : Bytes) (fin : Nat) (tag : UInt8) (pos : Nat) (field : Option Span) :
    Nat × Option Span :=
  if pos ≠ fin ∧ input.getD pos 0 = tag then
    let lenStart := pos + 1
    let pos := varintSkip input (fin - lenStart) lenStart
    let len := varintDecode 64 ((input.drop lenStart).take (pos - lenStart))
    if len > fin - pos then (fin, field) else (pos + len, some ⟨pos, len⟩)
  else (pos, field)

def skipUnknown (input : Bytes) (fin pos : Nat) : Nat :=
  if pos ≠ fin then
    let tag := input.getD pos 0
    if tag &&& 0x7 = 0 then
      let pos := varintSkip input (fin - pos) pos
      varintSkip input (fin - pos) pos
    else if tag &&& 0x7 = 2 then
      let lenStart := varintSkip input (fin - pos) pos
      let pos := varintSkip input (fin - lenStart) lenStart
      let len := varintDecode 64 ((input.drop lenStart).take (pos - lenStart))
      if len > fin - pos then fin else pos + len
    else fin
  else pos

/-- The `while (pos != end)` loop of a decoder whose known fields are read by `decode`. Every turn
moves forward, so the length of the input is fuel enough. -/
def decodeFields {Results : Type} (input : Bytes) (fin : Nat) (decode : Nat → Results → Nat × Results) :
    (fuel pos : Nat) → Results → Results
  | 0, _, results => results
  | fuel + 1, pos, results =>
    if pos = fin then results
    else
      let unknown := pos
      let (pos, results) := decode pos results
      let pos := if unknown = pos then skipUnknown input fin pos else pos
      decodeFields input fin decode fuel pos results

/-! ### Normal messages -/

def ratchetKeyTag : UInt8 := 0o12
def counterTag : UInt8 := 0o20
def ciphertextTag : UInt8 := 0o42

def encodeMessageLength (counter : UInt32) (ratchetKeyLength ciphertextLength macLength : Nat) : Nat :=
  1 + (1 + varstringLength ratchetKeyLength) + (1 + varintLength counter.toNat) +
    (1 + varstringLength ciphertextLength) + macLength

/-- `MessageWriter`: where the caller is to put the fields, and the buffer so far. -/
structure MessageWriter where
  output : Bytes
  ratchetKey : Nat
  ciphertext : Nat

def encodeMessage (version : UInt8) (counter : UInt32) (ratchetKeyLength ciphertextLength : Nat)
    (output : Bytes) : MessageWriter :=
  let w := Writer.put ⟨output, 0⟩ [version]
  let (w, ratchetKey) := w.encodeString ratchetKeyTag ratchetKeyLength
  let w := w.encodeInt counterTag counter
  let (w, ciphertext) := w.encodeString ciphertextTag ciphertextLength
  ⟨w.buffer, ratchetKey, ciphertext⟩

structure MessageReader where
  version : UInt8
  counter : IntField
  ratchetKey : Option Span
  ciphertext : Option Span

def decodeMessageFields (input : Bytes) (fin pos : Nat) (reader : MessageReader) : Nat × MessageReader :=
  let (pos, ratchetKey) := decodeString input fin ratchetKeyTag pos reader.ratchetKey
  let (pos, counter) := decodeInt input fin counterTag pos reader.counter
  let (pos, ciphertext) := decodeString input fin ciphertextTag pos reader.ciphertext
  (pos, { reader with ratchetKey, counter, ciphertext })

/-- `stack` is what the reader held before, which is all that a message without a version byte
leaves in `version`. -/
def decodeMessage (stack : MessageReader) (input : Bytes) (macLength : Nat) : MessageReader :=
  let reader : MessageReader :=
    { stack with counter.has := false, ratchetKey := none, ciphertext := none }
  if input.length < macLength then reader
  else
    let fin := input.length - macLength
    if fin = 0 then reader
    else
      decodeFields input fin (decodeMessageFields input fin) input.length 1
        { reader with version := input.getD 0 0 }

/-! ### Pre-key messages -/

def oneTimeKeyIdTag : UInt8 := 0o12
def baseKeyTag : UInt8 := 0o22
def identityKeyTag : UInt8 := 0o32
def messageTag : UInt8 := 0o42

def encodeOneTimeKeyMessageLength (oneTimeKeyLength identityKeyLength baseKeyLength messageLength : Nat) :
    Nat :=
  1 + (1 + varstringLength oneTimeKeyLength) + (1 + varstringLength identityKeyLength) +
    (1 + varstringLength baseKeyLength) + (1 + varstringLength messageLength)

structure PreKeyMessageWriter where
  output : Bytes
  identityKey : Nat
  baseKey : Nat
  oneTimeKey : Nat
  message : Nat

def encodeOneTimeKeyMessage (version : UInt8)
    (identityKeyLength baseKeyLength oneTimeKeyLength messageLength : Nat) (output : Bytes) :
    PreKeyMessageWriter :=
  let w := Writer.put ⟨output, 0⟩ [version]
  let (w, oneTimeKey) := w.encodeString oneTimeKeyIdTag oneTimeKeyLength
  let (w, baseKey) := w.encodeString baseKeyTag baseKeyLength
  let (w, identityKey) := w.encodeString identityKeyTag identityKeyLength
  let (w, message) := w.encodeString messageTag messageLength
  ⟨w.buffer, identityKey, baseKey, oneTimeKey, message⟩

structure PreKeyMessageReader where
  version : UInt8
  oneTimeKey : Option Span
  baseKey : Option Span
  identityKey : Option Span
  message : Option Span

def decodeOneTimeKeyFields (input : Bytes) (fin pos : Nat) (reader : PreKeyMessageReader) :
    Nat × PreKeyMessageReader :=
  let (pos, oneTimeKey) := decodeString input fin oneTimeKeyIdTag pos reader.oneTimeKey
  let (pos, baseKey) := decodeString input fin baseKeyTag pos reader.baseKey
  let (pos, identityKey) := decodeString input fin identityKeyTag pos reader.identityKey
  let (pos, message) := decodeString input fin messageTag pos reader.message
  (pos, { reader with oneTimeKey, baseKey, identityKey, message })

def decodeOneTimeKeyMessage (stack : PreKeyMessageReader) (input : Bytes) : PreKeyMessageReader :=
  let reader : PreKeyMessageReader :=
    { stack with oneTimeKey := none, identityKey := none, baseKey := none, message := none }
  let fin := input.length
  if fin = 0 then reader
  else
    decodeFields input fin (decodeOneTimeKeyFields input fin) input.length 1
      { reader with version := input.getD 0 0 }

/-! ### Group messages -/

def groupMessageIndexTag : UInt8 := 0o10
def groupCiphertextTag : UInt8 := 0o22

def encodeGroupMessageLength (messageIndex : UInt32) (ciphertextLength macLength signatureLength : Nat) :
    Nat :=
  1 + (1 + varintLength messageIndex.toNat) + (1 + varstringLength ciphertextLength) + macLength +
    signatureLength

/-- What `_olm_encode_group_message` leaves in the buffer and its `*ciphertext_ptr`; `length` is the
value it returns. -/
structure GroupMessageWriter where
  output : Bytes
  ciphertext : Nat
  length : Nat

def encodeGroupMessage (version : UInt8) (messageIndex : UInt32) (ciphertextLength : Nat) (output : Bytes) :
    GroupMessageWriter :=
  let w := Writer.put ⟨output, 0⟩ [version]
  let w := w.encodeInt groupMessageIndexTag messageIndex
  let (w, ciphertext) := w.encodeString groupCiphertextTag ciphertextLength
  ⟨w.buffer, ciphertext, w.pos⟩

structure GroupMessageResults where
  version : UInt8
  messageIndex : UInt32
  hasMessageIndex : Bool
  ciphertext : Option Span

def decodeGroupFields (input : Bytes) (fin pos : Nat) (found : IntField × Option Span) :
    Nat × IntField × Option Span :=
  let (pos, messageIndex) := decodeInt input fin groupMessageIndexTag pos found.1
  let (pos, ciphertext) := decodeString input fin groupCiphertextTag pos found.2
  (pos, messageIndex, ciphertext)

/-- `_olm_decode_group_message`. A message too short for the trailers leaves `version` and
`hasMessageIndex` as they were on the stack. The sum of their lengths is a `size_t`. -/
def decodeGroupMessage (stack : GroupMessageResults) (input : Bytes) (macLength signatureLength : Nat) :
    GroupMessageResults :=
  let trailerLength := (macLength + signatureLength) % 2 ^ 64
  let results : GroupMessageResults := { stack with messageIndex := 0, ciphertext := none }
  if input.length < trailerLength then results
  else
    let fin := input.length - trailerLength
    if fin = 0 then results
    else
      let (messageIndex, ciphertext) :=
        decodeFields input fin (decodeGroupFields input fin) input.length 1 (⟨0, false⟩, none)
      { version := input.getD 0 0
        messageIndex := messageIndex.value
        hasMessageIndex := messageIndex.has
        ciphertext }

end RubyOlm
