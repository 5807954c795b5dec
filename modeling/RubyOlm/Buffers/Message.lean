import RubyOlm.Message.Progress
import RubyOlm.Theory.Scan

/-!
# Decoding messages in buffers

The decoders of `message.cpp` over pointers. On every input they come to an end and read what is before the trailers
only, save that `_olm_decode_group_message` adds up the lengths of its trailers in a `size_t`, and leaves
`has_message_index` alone when it returns early.
-/

namespace RubyOlm

variable {B : Type}

/-! ### The loops -/

section Programs

variable [DecidableEq B]

/-- `varint_skip`; every loop here may take `fuel` turns. -/
def varintSkipAt (inputEnd : Pointer B) : (fuel : Nat) → (input : Pointer B) → Scan B (Pointer B)
  | 0, _ => failure
  | fuel + 1, input =>
    if input ≠ inputEnd then do
      let tmp ← Prog.load input
      if tmp &&& 0x80 = 0 then return input + 1
      else varintSkipAt inputEnd fuel (input + 1)
    else return input

/-- The `do … while` loop of `varint_decode`. -/
def varintDecodeFrom (width : Nat) (varintStart : Pointer B) :
    (fuel : Nat) → (varintEnd : Pointer B) → (value : Nat) → Scan B Nat
  | 0, _, _ => failure
  | fuel + 1, varintEnd, value => do
    let varintEnd : Pointer B := varintEnd - 1
    let byte ← Prog.load varintEnd
    let value := (value <<< 7) % 2 ^ width ||| (0x7F &&& byte.toNat)
    if varintEnd ≠ varintStart then varintDecodeFrom width varintStart fuel varintEnd value
    else return value

def varintDecodeAt (width fuel : Nat) (varintStart varintEnd : Pointer B) : Scan B Nat :=
  if varintEnd = varintStart then return 0 else varintDecodeFrom width varintStart fuel varintEnd 0

/-- A string field of a reader: the pointer is null when there is none. -/
structure StringAt (B : Type) where
  value : Option (Pointer B)
  length : Nat

def StringAt.none : StringAt B := ⟨.none, 0⟩

/-- `std::size_t(end - pos)`. -/
def sizeTo (fin pos : Pointer B) : Nat := ((fin.index - pos.index) % 2 ^ 64).toNat

def decodeIntAt (fuel : Nat) (fin : Pointer B) (tag : UInt8) (pos : Pointer B) (field : IntField) :
    Scan B (Pointer B × IntField) :=
  if pos ≠ fin then do
    if (← Prog.load pos) = tag then
      let valueStart := pos + 1
      let pos ← varintSkipAt fin fuel valueStart
      let value ← varintDecodeAt 32 fuel valueStart pos
      return (pos, ⟨UInt32.ofNat value, true⟩)
    else return (pos, field)
  else return (pos, field)

def decodeStringAt (fuel : Nat) (fin : Pointer B) (tag : UInt8) (pos : Pointer B) (field : StringAt B) :
    Scan B (Pointer B × StringAt B) :=
  if pos ≠ fin then do
    if (← Prog.load pos) = tag then
      let lenStart := pos + 1
      let pos ← varintSkipAt fin fuel lenStart
      let len ← varintDecodeAt 64 fuel lenStart pos
      if len > sizeTo fin pos then return (fin, field)
      else return (pos + len, ⟨some pos, len⟩)
    else return (pos, field)
  else return (pos, field)

def skipUnknownAt (fuel : Nat) (fin pos : Pointer B) : Scan B (Pointer B) :=
  if pos ≠ fin then do
    let tag ← Prog.load pos
    if tag &&& 0x7 = 0 then
      let pos ← varintSkipAt fin fuel pos
      varintSkipAt fin fuel pos
    else if tag &&& 0x7 = 2 then
      let lenStart ← varintSkipAt fin fuel pos
      let pos ← varintSkipAt fin fuel lenStart
      let len ← varintDecodeAt 64 fuel lenStart pos
      if len > sizeTo fin pos then return fin else return pos + len
    else return fin
  else return pos

/-- The `while (pos != end)` loop of a decoder. -/
def decodeFieldsAt {Results : Type} (fuel : Nat) (fin : Pointer B)
    (decode : Pointer B → Results → Scan B (Pointer B × Results)) :
    (turns : Nat) → (pos : Pointer B) → Results → Scan B Results
  | 0, _, _ => failure
  | turns + 1, pos, results =>
    if pos ≠ fin then do
      let unknown := pos
      let (pos, results) ← decode pos results
      if unknown = pos then
        let pos ← skipUnknownAt fuel fin pos
        decodeFieldsAt fuel fin decode turns pos results
      else decodeFieldsAt fuel fin decode turns pos results
    else return results

/-! ### The decoders -/

structure MessageReaderAt (B : Type) where
  version : UInt8
  counter : IntField
  input : Pointer B
  inputLength : UInt64
  ratchetKey : StringAt B
  ciphertext : StringAt B

def decodeMessageFieldsAt (fuel : Nat) (fin pos : Pointer B) (reader : MessageReaderAt B) :
    Scan B (Pointer B × MessageReaderAt B) := do
  let (pos, ratchetKey) ← decodeStringAt fuel fin ratchetKeyTag pos reader.ratchetKey
  let (pos, counter) ← decodeIntAt fuel fin counterTag pos reader.counter
  let (pos, ciphertext) ← decodeStringAt fuel fin ciphertextTag pos reader.ciphertext
  return (pos, { reader with ratchetKey, counter, ciphertext })

/-- `stack` is what the reader held before. -/
def decodeMessageAt (fuel : Nat) (stack : MessageReaderAt B) (input : Pointer B) (inputLength macLength : UInt64) :
    Scan B (MessageReaderAt B) :=
  let pos := input
  let fin := input + inputLength.toNat - macLength.toNat
  let reader : MessageReaderAt B :=
    { stack with input, inputLength, counter.has := false, ratchetKey := .none, ciphertext := .none }
  if inputLength < macLength then return reader
  else if pos = fin then return reader
  else do
    let version ← Prog.load pos
    decodeFieldsAt fuel fin (decodeMessageFieldsAt fuel fin) fuel (pos + 1) { reader with version }

structure PreKeyMessageReaderAt (B : Type) where
  version : UInt8
  oneTimeKey : StringAt B
  baseKey : StringAt B
  identityKey : StringAt B
  message : StringAt B

def decodeOneTimeKeyFieldsAt (fuel : Nat) (fin pos : Pointer B) (reader : PreKeyMessageReaderAt B) :
    Scan B (Pointer B × PreKeyMessageReaderAt B) := do
  let (pos, oneTimeKey) ← decodeStringAt fuel fin oneTimeKeyIdTag pos reader.oneTimeKey
  let (pos, baseKey) ← decodeStringAt fuel fin baseKeyTag pos reader.baseKey
  let (pos, identityKey) ← decodeStringAt fuel fin identityKeyTag pos reader.identityKey
  let (pos, message) ← decodeStringAt fuel fin messageTag pos reader.message
  return (pos, { reader with oneTimeKey, baseKey, identityKey, message })

def decodeOneTimeKeyMessageAt (fuel : Nat) (stack : PreKeyMessageReaderAt B) (input : Pointer B)
    (inputLength : UInt64) : Scan B (PreKeyMessageReaderAt B) :=
  let pos := input
  let fin := input + inputLength.toNat
  let reader : PreKeyMessageReaderAt B :=
    { stack with oneTimeKey := .none, identityKey := .none, baseKey := .none, message := .none }
  if pos = fin then return reader
  else do
    let version ← Prog.load pos
    decodeFieldsAt fuel fin (decodeOneTimeKeyFieldsAt fuel fin) fuel (pos + 1) { reader with version }

structure GroupMessageResultsAt (B : Type) where
  version : UInt8
  messageIndex : UInt32
  hasMessageIndex : Bool
  ciphertext : StringAt B

def decodeGroupFieldsAt (fuel : Nat) (fin pos : Pointer B) (found : IntField × StringAt B) :
    Scan B (Pointer B × IntField × StringAt B) := do
  let (pos, messageIndex) ← decodeIntAt fuel fin groupMessageIndexTag pos found.1
  let (pos, ciphertext) ← decodeStringAt fuel fin groupCiphertextTag pos found.2
  return (pos, messageIndex, ciphertext)

def decodeGroupMessageAt (fuel : Nat) (stack : GroupMessageResultsAt B) (input : Pointer B)
    (inputLength macLength signatureLength : UInt64) : Scan B (GroupMessageResultsAt B) :=
  let pos := input
  let trailerLength := macLength + signatureLength
  let fin := input + inputLength.toNat - trailerLength.toNat
  let results : GroupMessageResultsAt B := { stack with messageIndex := 0, ciphertext := .none }
  if inputLength < trailerLength then return results
  else if pos = fin then return results
  else do
    let version ← Prog.load pos
    let (messageIndex, ciphertext) ← decodeFieldsAt fuel fin (decodeGroupFieldsAt fuel fin) fuel (pos + 1)
      (⟨0, false⟩, .none)
    return { version
             messageIndex := messageIndex.value
             hasMessageIndex := messageIndex.has
             ciphertext }

end Programs

/-! ### What the loops come to -/

namespace Pointer

theorem add_inj (p : Pointer B) {m n : Nat} : p + m = p + n ↔ m = n := by
  constructor
  · intro same
    have index := congrArg Pointer.index same
    rw [index_add, index_add] at index
    omega
  · rintro rfl
    rfl

theorem eq_add_iff (p : Pointer B) {n : Nat} : p = p + n ↔ n = 0 := by
  have same := add_inj p (m := 0) (n := n)
  rw [add_zero] at same
  exact same.trans eq_comm

end Pointer

theorem sizeTo_add (p : Pointer B) {m n : Nat} (le : n ≤ m) (small : m < 2 ^ 64) : sizeTo (p + m) (p + n) = m - n := by
  unfold sizeTo
  rw [Pointer.index_add, Pointer.index_add]
  omega

theorem Memory.getD_read (memory : Memory B) (p : Pointer B) {length i : Nat} (lt : i < length) :
    (memory.read p length).getD i 0 = memory (p + i) := by
  rw [List.getD_eq_getElem _ _ (by rw [length_read]; exact lt), getElem_read]

theorem Memory.slice_read (memory : Memory B) (p : Pointer B) {length start count : Nat} (fits : start + count ≤ length) :
    ((memory.read p length).drop start).take count = memory.read (p + start) count := by
  rw [drop_read, take_read _ _ (by omega)]

section Ends

open Scan

variable [DecidableEq B] (memory : Memory B) (input : Pointer B) {length fin fuel pos : Nat}

theorem varintSkipAt_ends (le : fin ≤ length) (before : pos ≤ fin) (enough : fin - pos < fuel) :
    Ends (varintSkipAt (input + fin) fuel (input + pos)) memory (ReadsIn input fin)
      (input + varintSkip (memory.read input length) (fin - pos) pos) := by
  induction fuel generalizing pos with
  | zero => exact absurd enough (Nat.not_lt_zero _)
  | succ fuel ih =>
    rw [varintSkipAt]
    by_cases last : pos = fin
    · subst last
      rw [if_neg (not_not.mpr rfl), Nat.sub_self]
      exact Ends.pure _
    · rw [if_pos ((Pointer.add_inj input).not.mpr last), show fin - pos = fin - (pos + 1) + 1 by omega, varintSkip,
        Memory.getD_read _ _ (by omega)]
      refine (Ends.load (readsIn_iff.mpr (by omega))).bind ?_
      split
      · rw [Pointer.add_add]
        exact Ends.pure _
      · rw [Pointer.add_add]
        exact ih (by omega) (by omega)

theorem varintDecodeFrom_ends (width : Nat) {start count : Nat} (value : Nat) (some : 0 < count)
    (before : start + count ≤ fin) (enough : count ≤ fuel) :
    Ends (varintDecodeFrom width (input + start) fuel (input + (start + count)) value) memory (ReadsIn input fin)
      ((memory.read (input + start) count).foldr
        (fun byte value => (value <<< 7) % 2 ^ width ||| (0x7F &&& byte.toNat)) value) := by
  induction count generalizing fuel value with
  | zero => exact absurd some (Nat.lt_irrefl 0)
  | succ count ih =>
    obtain ⟨fuel, rfl⟩ : ∃ more, fuel = more + 1 := ⟨fuel - 1, by omega⟩
    have last : input + (start + (count + 1)) - 1 = input + (start + count) := Pointer.add_sub input (by omega)
    rw [varintDecodeFrom, Memory.read_add, Memory.read_one, List.foldr_append, Pointer.add_add, last]
    refine (Ends.load (readsIn_iff.mpr (by omega))).bind ?_
    dsimp only
    by_cases first : count = 0
    · subst first
      rw [if_neg (not_not.mpr (congrArg (input + ·) (Nat.add_zero start)))]
      exact Ends.pure _
    · rw [if_pos ((Pointer.add_inj input).not.mpr (by omega))]
      exact ih _ (by omega) (by omega) (by omega)

theorem varintDecodeAt_ends (width : Nat) {start stop : Nat} (le : fin ≤ length) (ordered : start ≤ stop)
    (before : stop ≤ fin) (enough : stop - start ≤ fuel) :
    Ends (varintDecodeAt width fuel (input + start) (input + stop)) memory (ReadsIn input fin)
      (varintDecode width (((memory.read input length).drop start).take (stop - start))) := by
  rw [Memory.slice_read _ _ (by omega), varintDecodeAt]
  obtain ⟨count, rfl⟩ := Nat.exists_eq_add_of_le ordered
  rw [Nat.add_sub_cancel_left] at enough ⊢
  by_cases empty : count = 0
  · subst empty
    rw [Nat.add_zero, if_pos rfl]
    exact Ends.pure _
  · rw [if_neg ((Pointer.add_inj input).not.mpr (by omega))]
    exact varintDecodeFrom_ends memory input width 0 (by omega) before enough

/-- The pointer of a field that is there leads into the message. -/
def StringAt.of (input : Pointer B) : Option Span → StringAt B
  | .none => .none
  | some span => ⟨some (input + span.start), span.length⟩

variable (le : fin ≤ length) (before : pos ≤ fin) (enough : fin < fuel)
include le before enough

theorem decodeIntAt_ends (tag : UInt8) (field : IntField) :
    Ends (decodeIntAt fuel (input + fin) tag (input + pos) field) memory (ReadsIn input fin)
      (input + (decodeInt (memory.read input length) fin tag pos field).1,
        (decodeInt (memory.read input length) fin tag pos field).2) := by
  rw [decodeIntAt, decodeInt]
  by_cases last : pos = fin
  · rw [if_neg (not_not.mpr (congrArg (input + ·) last)), if_neg (fun both => both.1 last)]
    exact Ends.pure _
  · rw [if_pos ((Pointer.add_inj input).not.mpr last), Memory.getD_read _ _ (by omega)]
    refine (Ends.load (readsIn_iff.mpr (by omega))).bind ?_
    by_cases found : memory (input + pos) = tag
    · rw [if_pos found, if_pos ⟨last, found⟩, Pointer.add_add]
      have skipped := varintSkip_reaches (memory.read input length) (show pos + 1 ≤ fin by omega)
      refine (varintSkipAt_ends memory input le (by omega) (by omega)).bind ?_
      refine (varintDecodeAt_ends memory input 32 le skipped.1 skipped.2 (by omega)).bind ?_
      exact Ends.pure _
    · rw [if_neg found, if_neg (fun both => found both.2)]
      exact Ends.pure _

variable (small : length < 2 ^ 64)
include small

theorem decodeStringAt_ends (tag : UInt8) (field : Option Span) :
    Ends (decodeStringAt fuel (input + fin) tag (input + pos) (StringAt.of input field)) memory (ReadsIn input fin)
      (input + (decodeString (memory.read input length) fin tag pos field).1,
        StringAt.of input (decodeString (memory.read input length) fin tag pos field).2) := by
  rw [decodeStringAt, decodeString]
  by_cases last : pos = fin
  · rw [if_neg (not_not.mpr (congrArg (input + ·) last)), if_neg (fun both => both.1 last)]
    exact Ends.pure _
  · rw [if_pos ((Pointer.add_inj input).not.mpr last), Memory.getD_read _ _ (by omega)]
    refine (Ends.load (readsIn_iff.mpr (by omega))).bind ?_
    by_cases found : memory (input + pos) = tag
    · rw [if_pos found, if_pos ⟨last, found⟩, Pointer.add_add]
      have skipped := varintSkip_reaches (memory.read input length) (show pos + 1 ≤ fin by omega)
      refine (varintSkipAt_ends memory input le (by omega) (by omega)).bind ?_
      refine (varintDecodeAt_ends memory input 64 le skipped.1 skipped.2 (by omega)).bind ?_
      dsimp only
      rw [sizeTo_add input skipped.2 (by omega)]
      split
      · exact Ends.pure _
      · rw [Pointer.add_add]
        exact Ends.pure _
    · rw [if_neg found, if_neg (fun both => found both.2)]
      exact Ends.pure _

theorem skipUnknownAt_ends :
    Ends (skipUnknownAt fuel (input + fin) (input + pos)) memory (ReadsIn input fin)
      (input + skipUnknown (memory.read input length) fin pos) := by
  rw [skipUnknownAt, skipUnknown]
  by_cases last : pos = fin
  · rw [if_neg (not_not.mpr (congrArg (input + ·) last)), if_neg (not_not.mpr last)]
    exact Ends.pure _
  · rw [if_pos ((Pointer.add_inj input).not.mpr last), if_pos last, Memory.getD_read _ _ (by omega)]
    refine (Ends.load (readsIn_iff.mpr (by omega))).bind ?_
    have first := varintSkip_reaches (memory.read input length) before
    have second := varintSkip_reaches (memory.read input length) first.2
    dsimp only
    split
    · refine (varintSkipAt_ends memory input le before (by omega)).bind ?_
      exact varintSkipAt_ends memory input le first.2 (by omega)
    · split
      · refine (varintSkipAt_ends memory input le before (by omega)).bind ?_
        refine (varintSkipAt_ends memory input le first.2 (by omega)).bind ?_
        refine (varintDecodeAt_ends memory input 64 le second.1 second.2 (by omega)).bind ?_
        rw [sizeTo_add input second.2 (by omega)]
        split
        · exact Ends.pure _
        · rw [Pointer.add_add]
          exact Ends.pure _
      · exact Ends.pure _

omit before in
/-- The loop over pointers, whose known fields are read as those of the loop over offsets are. -/
theorem decodeFieldsAt_ends {Results ResultsAt : Type} {decode : Nat → Results → Nat × Results} {P : Results → Prop}
    (advances : Advances fin decode P) (place : Results → ResultsAt)
    {decodeAt : Pointer B → ResultsAt → Scan B (Pointer B × ResultsAt)}
    (reads : ∀ pos ≤ fin, ∀ results, Ends (decodeAt (input + pos) (place results)) memory (ReadsIn input fin)
      (input + (decode pos results).1, place (decode pos results).2))
    {turns : Nat} (before : pos ≤ fin) (reached : fin - pos < turns) (results : Results) :
    Ends (decodeFieldsAt fuel (input + fin) decodeAt turns (input + pos) (place results)) memory (ReadsIn input fin)
      (place (decodeFields (memory.read input length) fin decode length pos results)) := by
  rw [advances.decodeFields_fuel _ before (show fin - pos ≤ length by omega) (show fin - pos ≤ turns by omega)]
  induction turns generalizing pos results with
  | zero => exact absurd reached (Nat.not_lt_zero _)
  | succ turns ih =>
    rw [decodeFieldsAt]
    by_cases last : pos = fin
    · subst last
      rw [if_neg (not_not.mpr rfl), decodeFields_fin]
      exact Ends.pure _
    · have moved := advances.lt_turnEnd (memory.read input length) (show pos < fin by omega) results
      rw [if_pos ((Pointer.add_inj input).not.mpr last), decodeFields_succ _ last]
      refine (reads pos before results).bind ?_
      dsimp only
      rw [turnEnd] at moved ⊢
      by_cases same : pos = (decode pos results).1
      · rw [if_pos same] at moved ⊢
        rw [← same, if_pos rfl]
        refine (skipUnknownAt_ends memory input le before enough small).bind ?_
        exact ih moved.2 (by omega) (decode pos results).2
      · rw [if_neg same] at moved ⊢
        rw [if_neg ((Pointer.add_inj input).not.mpr same)]
        exact ih moved.2 (by omega) (decode pos results).2

omit [DecidableEq B] le before enough small in
theorem load_start (some : fin ≠ 0) :
    Ends (liftM (Prog.load input) : Scan B UInt8) memory (ReadsIn input fin) (memory input) := by
  have first : ReadsIn input fin ⟨.read, input + 0⟩ := readsIn_iff.mpr (Nat.pos_of_ne_zero some)
  rw [Pointer.add_zero] at first
  exact Ends.load first

end Ends

/-! ### The decoders come to what they do over offsets -/

def MessageReaderAt.of (input : Pointer B) (inputLength : UInt64) (reader : MessageReader) : MessageReaderAt B :=
  ⟨reader.version, reader.counter, input, inputLength, .of input reader.ratchetKey, .of input reader.ciphertext⟩

def PreKeyMessageReaderAt.of (input : Pointer B) (reader : PreKeyMessageReader) : PreKeyMessageReaderAt B :=
  ⟨reader.version, .of input reader.oneTimeKey, .of input reader.baseKey, .of input reader.identityKey,
    .of input reader.message⟩

def GroupMessageResultsAt.of (input : Pointer B) (results : GroupMessageResults) : GroupMessageResultsAt B :=
  ⟨results.version, results.messageIndex, results.hasMessageIndex, .of input results.ciphertext⟩

@[simp] theorem GroupMessageResultsAt.version_of (input : Pointer B) (results : GroupMessageResults) :
    (of input results).version = results.version := rfl

section Decoders

open Scan

variable [DecidableEq B] (memory : Memory B) (input : Pointer B) {length fin fuel : Nat}

section Fields

variable (le : fin ≤ length) (enough : fin < fuel) (small : length < 2 ^ 64)
include le enough small

theorem decodeMessageFieldsAt_ends (inputLength : UInt64) : ∀ pos ≤ fin, ∀ reader,
    Ends (decodeMessageFieldsAt fuel (input + fin) (input + pos) (.of input inputLength reader)) memory (ReadsIn input fin)
      (input + (decodeMessageFields (memory.read input length) fin pos reader).1,
        .of input inputLength (decodeMessageFields (memory.read input length) fin pos reader).2) := by
  intro pos before reader
  have key := decodeString_reaches (memory.read input length) ratchetKeyTag before reader.ratchetKey
  have counter := decodeInt_reaches (memory.read input length) counterTag key.2 reader.counter
  refine (decodeStringAt_ends memory input le before enough small _ reader.ratchetKey).bind ?_
  refine (decodeIntAt_ends memory input le key.2 enough _ reader.counter).bind ?_
  refine (decodeStringAt_ends memory input le counter.2 enough small _ reader.ciphertext).bind ?_
  exact Ends.pure _

theorem decodeOneTimeKeyFieldsAt_ends : ∀ pos ≤ fin, ∀ reader,
    Ends (decodeOneTimeKeyFieldsAt fuel (input + fin) (input + pos) (.of input reader)) memory (ReadsIn input fin)
      (input + (decodeOneTimeKeyFields (memory.read input length) fin pos reader).1,
        .of input (decodeOneTimeKeyFields (memory.read input length) fin pos reader).2) := by
  intro pos before reader
  have oneTime := decodeString_reaches (memory.read input length) oneTimeKeyIdTag before reader.oneTimeKey
  have base := decodeString_reaches (memory.read input length) baseKeyTag oneTime.2 reader.baseKey
  have identity := decodeString_reaches (memory.read input length) identityKeyTag base.2 reader.identityKey
  refine (decodeStringAt_ends memory input le before enough small _ reader.oneTimeKey).bind ?_
  refine (decodeStringAt_ends memory input le oneTime.2 enough small _ reader.baseKey).bind ?_
  refine (decodeStringAt_ends memory input le base.2 enough small _ reader.identityKey).bind ?_
  refine (decodeStringAt_ends memory input le identity.2 enough small _ reader.message).bind ?_
  exact Ends.pure _

theorem decodeGroupFieldsAt_ends : ∀ pos ≤ fin, ∀ found : IntField × Option Span,
    Ends (decodeGroupFieldsAt fuel (input + fin) (input + pos) (found.1, .of input found.2)) memory (ReadsIn input fin)
      (input + (decodeGroupFields (memory.read input length) fin pos found).1,
        (decodeGroupFields (memory.read input length) fin pos found).2.1,
        .of input (decodeGroupFields (memory.read input length) fin pos found).2.2) := by
  intro pos before found
  have index := decodeInt_reaches (memory.read input length) groupMessageIndexTag before found.1
  refine (decodeIntAt_ends memory input le before enough _ found.1).bind ?_
  refine (decodeStringAt_ends memory input le index.2 enough small _ found.2).bind ?_
  exact Ends.pure _

end Fields

variable {inputLength : UInt64} (enough : inputLength.toNat < fuel)
include enough

theorem decodeMessageAt_ends (stack : MessageReaderAt B) (macLength : UInt64) :
    Ends (decodeMessageAt fuel stack input inputLength macLength) memory
      (ReadsIn input (inputLength.toNat - macLength.toNat))
      (.of input inputLength (decodeMessage ⟨stack.version, stack.counter, none, none⟩
        (memory.read input inputLength.toNat) macLength.toNat)) := by
  unfold decodeMessageAt decodeMessage
  rw [Memory.length_read]
  by_cases short : inputLength < macLength
  · rw [if_pos short, if_pos (UInt64.lt_iff_toNat_lt.mp short)]
    exact Ends.pure _
  · have long := (UInt64.lt_iff_toNat_lt).not.mp short
    rw [if_neg short, if_neg long, Pointer.add_sub input (by omega)]
    obtain ⟨fin, hfin⟩ : ∃ fin, inputLength.toNat - macLength.toNat = fin := ⟨_, rfl⟩
    rw [hfin]
    dsimp only
    by_cases none : fin = 0
    · rw [if_pos ((Pointer.eq_add_iff input).mpr none), if_pos none]
      exact Ends.pure _
    · rw [if_neg ((Pointer.eq_add_iff input).not.mpr none), if_neg none, Memory.getD_read _ _ (by omega),
        Pointer.add_zero]
      refine (load_start memory input none).bind ?_
      have le : fin ≤ inputLength.toNat := by omega
      exact decodeFieldsAt_ends memory input le (by omega) inputLength.toNat_lt
        (decodeMessageFields_advances (memory.read input inputLength.toNat) fin) (MessageReaderAt.of input inputLength)
        (decodeMessageFieldsAt_ends memory input le (by omega) inputLength.toNat_lt inputLength)
        (show 1 ≤ fin by omega) (by omega) ⟨memory input, { stack.counter with has := false }, .none, .none⟩

theorem decodeOneTimeKeyMessageAt_ends (stack : PreKeyMessageReaderAt B) :
    Ends (decodeOneTimeKeyMessageAt fuel stack input inputLength) memory (ReadsIn input inputLength.toNat)
      (.of input (decodeOneTimeKeyMessage ⟨stack.version, none, none, none, none⟩
        (memory.read input inputLength.toNat))) := by
  unfold decodeOneTimeKeyMessageAt decodeOneTimeKeyMessage
  rw [Memory.length_read]
  dsimp only
  by_cases none : inputLength.toNat = 0
  · rw [if_pos ((Pointer.eq_add_iff input).mpr none), if_pos none]
    exact Ends.pure _
  · have small := inputLength.toNat_lt
    rw [if_neg ((Pointer.eq_add_iff input).not.mpr none), if_neg none, Memory.getD_read _ _ (by omega),
      Pointer.add_zero]
    refine (load_start memory input none).bind ?_
    exact decodeFieldsAt_ends memory input (Nat.le_refl _) enough inputLength.toNat_lt
      (decodeOneTimeKeyFields_advances (memory.read input inputLength.toNat) inputLength.toNat)
      (PreKeyMessageReaderAt.of input)
      (decodeOneTimeKeyFieldsAt_ends memory input (Nat.le_refl _) enough inputLength.toNat_lt)
      (show 1 ≤ inputLength.toNat by omega) (by omega) ⟨memory input, .none, .none, .none, .none⟩

theorem decodeGroupMessageAt_ends (stack : GroupMessageResultsAt B) (macLength signatureLength : UInt64) :
    Ends (decodeGroupMessageAt fuel stack input inputLength macLength signatureLength) memory
      (ReadsIn input (inputLength.toNat - (macLength + signatureLength).toNat))
      (.of input (decodeGroupMessage ⟨stack.version, stack.messageIndex, stack.hasMessageIndex, none⟩
        (memory.read input inputLength.toNat) macLength.toNat signatureLength.toNat)) := by
  unfold decodeGroupMessageAt decodeGroupMessage
  rw [Memory.length_read, ← UInt64.toNat_add]
  obtain ⟨trailerLength, htrailer⟩ : ∃ trailerLength, macLength + signatureLength = trailerLength := ⟨_, rfl⟩
  rw [htrailer]
  by_cases short : inputLength < trailerLength
  · rw [if_pos short, if_pos (UInt64.lt_iff_toNat_lt.mp short)]
    exact Ends.pure _
  · have long := (UInt64.lt_iff_toNat_lt).not.mp short
    rw [if_neg short, if_neg long, Pointer.add_sub input (by omega)]
    obtain ⟨fin, hfin⟩ : ∃ fin, inputLength.toNat - trailerLength.toNat = fin := ⟨_, rfl⟩
    rw [hfin]
    dsimp only
    by_cases none : fin = 0
    · rw [if_pos ((Pointer.eq_add_iff input).mpr none), if_pos none]
      exact Ends.pure _
    · rw [if_neg ((Pointer.eq_add_iff input).not.mpr none), if_neg none, Memory.getD_read _ _ (by omega),
        Pointer.add_zero]
      refine (load_start memory input none).bind ?_
      have le : fin ≤ inputLength.toNat := by omega
      refine (decodeFieldsAt_ends memory input le (by omega) inputLength.toNat_lt
        (decodeGroupFields_advances (memory.read input inputLength.toNat) fin)
        (fun found => (found.1, StringAt.of input found.2))
        (decodeGroupFieldsAt_ends memory input le (by omega) inputLength.toNat_lt)
        (show 1 ≤ fin by omega) (by omega) (⟨0, false⟩, .none)).bind ?_
      exact Ends.pure _

end Decoders

/-! ### Arbitrary input -/

/-- A string that is said to be there is in the first `region` bytes of the input. -/
def StringAt.Inside (input : Pointer B) (region : Nat) (field : StringAt B) : Prop :=
  ∀ start, field.value = some start → ∃ i, start = input + i ∧ i + field.length ≤ region

/-- A number that is said to be there was read in them, behind its tag. -/
def IntField.InsideAt (memory : Memory B) (input : Pointer B) (region : Nat) (tag : UInt8) (field : IntField) : Prop :=
  field.has = true → ∃ i count, i + 1 + count ≤ region ∧ memory (input + i) = tag ∧
    field.value = UInt32.ofNat (varintDecode 32 (memory.read (input + (i + 1)) count))

structure MessageReaderAt.Inside (memory : Memory B) (input : Pointer B) (region : Nat) (reader : MessageReaderAt B) :
    Prop where
  ratchetKey : reader.ratchetKey.Inside input region
  counter : reader.counter.InsideAt memory input region counterTag
  ciphertext : reader.ciphertext.Inside input region

structure PreKeyMessageReaderAt.Inside (input : Pointer B) (region : Nat) (reader : PreKeyMessageReaderAt B) :
    Prop where
  oneTimeKey : reader.oneTimeKey.Inside input region
  baseKey : reader.baseKey.Inside input region
  identityKey : reader.identityKey.Inside input region
  message : reader.message.Inside input region

structure GroupMessageResultsAt.Inside (memory : Memory B) (input : Pointer B) (region : Nat)
    (results : GroupMessageResultsAt B) : Prop where
  messageIndex : IntField.InsideAt memory input region groupMessageIndexTag
    ⟨results.messageIndex, results.hasMessageIndex⟩
  ciphertext : results.ciphertext.Inside input region

theorem StringAt.inside_of (input : Pointer B) {region : Nat} {field : Option Span} (inside : StringInside region field) :
    (StringAt.of input field).Inside input region := by
  intro start there
  cases field with
  | none => cases there
  | some span =>
    obtain rfl := Option.some.inj there
    exact ⟨span.start, rfl, (inside span rfl).fits⟩

theorem IntField.insideAt_of (memory : Memory B) (input : Pointer B) {region length : Nat} (le : region ≤ length)
    {tag : UInt8} {field : IntField} (inside : field.Inside (memory.read input length) region tag) :
    field.InsideAt memory input region tag := by
  intro has
  obtain ⟨⟨start, count⟩, ⟨behind, fits⟩, found, value⟩ := inside has
  dsimp only at behind fits found value
  obtain ⟨i, rfl⟩ : ∃ i, start = i + 1 := ⟨start - 1, by omega⟩
  rw [Nat.add_sub_cancel, Memory.getD_read _ _ (by omega)] at found
  rw [Span.read, Memory.slice_read _ _ (Nat.le_trans fits le)] at value
  exact ⟨i, count, fits, found, value⟩

/-- Nothing is said to be there without a byte to say it. -/
theorem IntField.insideAt_empty {memory : Memory B} {input : Pointer B} {tag : UInt8} {field : IntField} :
    field.InsideAt memory input 0 tag ↔ field.has = false := by
  constructor
  · intro inside
    cases has : field.has with
    | false => rfl
    | true =>
      obtain ⟨i, count, fits, -⟩ := inside has
      omega
  · intro absent has
    rw [absent] at has
    cases has

/-- With enough turns for its loops, which more than the length of the input are, the program ends. It reads no byte
but the first `region` ones of the input, and what it reports is `Inside` these. -/
def Contained {Results : Type} (program : (fuel : Nat) → Scan B Results) (memory : Memory B) (input : Pointer B)
    (inputLength region : Nat) (Inside : Results → Prop) : Prop :=
  ∃ results, (∀ fuel > inputLength, (program fuel).Ends memory (ReadsIn input region) results) ∧ Inside results

section Arbitrary

open Scan

variable [DecidableEq B] (memory : Memory B) (input : Pointer B)

theorem decodeMessageAt_contained (stack : MessageReaderAt B) (inputLength macLength : UInt64) :
    Contained (decodeMessageAt · stack input inputLength macLength) memory input inputLength.toNat
      (inputLength.toNat - macLength.toNat)
      (MessageReaderAt.Inside memory input (inputLength.toNat - macLength.toNat)) := by
  refine ⟨_, fun fuel enough => decodeMessageAt_ends memory input enough stack macLength, ?_⟩
  have inside := decodeMessage_inside (memory.read input inputLength.toNat)
    ⟨stack.version, stack.counter, none, none⟩ macLength.toNat
  rw [Memory.length_read] at inside
  exact ⟨StringAt.inside_of input inside.ratchetKey, IntField.insideAt_of memory input (Nat.sub_le _ _) inside.counter,
    StringAt.inside_of input inside.ciphertext⟩

theorem decodeOneTimeKeyMessageAt_contained (stack : PreKeyMessageReaderAt B) (inputLength : UInt64) :
    Contained (decodeOneTimeKeyMessageAt · stack input inputLength) memory input inputLength.toNat inputLength.toNat
      (PreKeyMessageReaderAt.Inside input inputLength.toNat) := by
  refine ⟨_, fun fuel enough => decodeOneTimeKeyMessageAt_ends memory input enough stack, ?_⟩
  have inside := decodeOneTimeKeyMessage_inside (memory.read input inputLength.toNat)
    ⟨stack.version, none, none, none, none⟩
  rw [Memory.length_read] at inside
  exact ⟨StringAt.inside_of input inside.oneTimeKey, StringAt.inside_of input inside.baseKey,
    StringAt.inside_of input inside.identityKey, StringAt.inside_of input inside.message⟩

section Group

variable (stack : GroupMessageResultsAt B) (inputLength macLength signatureLength : UInt64)

/-- What is before the trailers, whose lengths are added up without an overflow. -/
def groupRegion : Nat := inputLength.toNat - (macLength.toNat + signatureLength.toNat)

def GroupContained : Prop :=
  Contained (decodeGroupMessageAt · stack input inputLength macLength signatureLength) memory input inputLength.toNat
    (groupRegion inputLength macLength signatureLength)
    (GroupMessageResultsAt.Inside memory input (groupRegion inputLength macLength signatureLength))

variable {inputLength macLength signatureLength}

theorem groupRegion_of_le (le : inputLength ≤ macLength + signatureLength) :
    groupRegion inputLength macLength signatureLength = 0 := by
  rw [UInt64.le_iff_toNat_le, UInt64.toNat_add] at le
  unfold groupRegion
  have mod := Nat.mod_le (macLength.toNat + signatureLength.toNat) (2 ^ 64)
  omega

/-- Without a byte before the trailers `has_message_index` is what it was. -/
theorem groupContained_early (le : inputLength ≤ macLength + signatureLength) :
    GroupContained memory input stack inputLength macLength signatureLength ↔ stack.hasMessageIndex = false := by
  have early : (memory.read input inputLength.toNat).length ≤ (macLength.toNat + signatureLength.toNat) % 2 ^ 64 := by
    rw [Memory.length_read, ← UInt64.toNat_add]
    exact UInt64.le_iff_toNat_le.mp le
  have ends (fuel : Nat) (enough : inputLength.toNat < fuel) :=
    decodeGroupMessageAt_ends memory input enough stack macLength signatureLength
  rw [decodeGroupMessage_none _ early, Nat.sub_eq_zero_of_le (UInt64.le_iff_toNat_le.mp le)] at ends
  rw [GroupContained, groupRegion_of_le le]
  constructor
  · rintro ⟨results, ends', inside⟩
    obtain rfl := (ends' _ (Nat.lt_succ_self _)).value_unique (ends _ (Nat.lt_succ_self _))
    exact IntField.insideAt_empty.mp inside.messageIndex
  · intro absent
    exact ⟨_, ends, IntField.insideAt_empty.mpr absent, StringAt.inside_of input (stringInside_none 0)⟩

/-- With a byte before them it is read, where the trailers may be longer than was computed. -/
theorem groupContained_late (lt : macLength + signatureLength < inputLength) :
    GroupContained memory input stack inputLength macLength signatureLength ↔
      macLength.toNat + signatureLength.toNat < 2 ^ 64 := by
  have late := UInt64.lt_iff_toNat_lt.mp lt
  rw [UInt64.toNat_add] at late
  constructor
  · rintro ⟨results, ends, -⟩
    by_contra overflow
    have empty : groupRegion inputLength macLength signatureLength = 0 := by
      have small := inputLength.toNat_lt
      unfold groupRegion
      omega
    have ends := ends _ (Nat.lt_succ_self _)
    unfold decodeGroupMessageAt at ends
    dsimp only at ends
    rw [if_neg (UInt64.lt_iff_toNat_lt.not.mpr (by rw [UInt64.toNat_add]; omega)), UInt64.toNat_add,
      Pointer.add_sub input (Nat.le_of_lt late), if_neg ((Pointer.eq_add_iff input).not.mpr (by omega)), empty] at ends
    obtain ⟨-, i, none, -⟩ := ends.first
    exact Nat.not_lt_zero i none
  · intro small
    have sum : (macLength + signatureLength).toNat = macLength.toNat + signatureLength.toNat := by
      rw [UInt64.toNat_add, Nat.mod_eq_of_lt small]
    have ends (fuel : Nat) (enough : inputLength.toNat < fuel) :=
      decodeGroupMessageAt_ends memory input enough stack macLength signatureLength
    rw [sum] at ends
    refine ⟨_, ends, ?_⟩
    have inside := decodeGroupMessage_inside (memory.read input inputLength.toNat)
      ⟨stack.version, stack.messageIndex, stack.hasMessageIndex, none⟩
      (show (macLength.toNat + signatureLength.toNat) % 2 ^ 64 < (memory.read input inputLength.toNat).length by
        rw [Memory.length_read]
        exact late)
    rw [Memory.length_read, Nat.mod_eq_of_lt small] at inside
    exact ⟨IntField.insideAt_of memory input (Nat.sub_le _ _) inside.messageIndex,
      StringAt.inside_of input inside.ciphertext⟩

end Group

/-- On every input the decoders end, keep to what is before the trailers and report nothing that is not there; that of
group messages does so exactly when the lengths of the trailers can be added up and, if there is nothing before them,
the results did not say that there is a message index. -/
theorem decoders_contained_iff :
    (∀ (stack : MessageReaderAt B) (inputLength macLength : UInt64),
      Contained (decodeMessageAt · stack input inputLength macLength) memory input inputLength.toNat
        (inputLength.toNat - macLength.toNat)
        (MessageReaderAt.Inside memory input (inputLength.toNat - macLength.toNat))) ∧
    (∀ (stack : PreKeyMessageReaderAt B) (inputLength : UInt64),
      Contained (decodeOneTimeKeyMessageAt · stack input inputLength) memory input inputLength.toNat inputLength.toNat
        (PreKeyMessageReaderAt.Inside input inputLength.toNat)) ∧
    ∀ (stack : GroupMessageResultsAt B) (inputLength macLength signatureLength : UInt64),
      GroupContained memory input stack inputLength macLength signatureLength ↔
        (inputLength ≤ macLength + signatureLength → stack.hasMessageIndex = false) ∧
          (macLength + signatureLength < inputLength → macLength.toNat + signatureLength.toNat < 2 ^ 64) := by
  refine ⟨decodeMessageAt_contained memory input, decodeOneTimeKeyMessageAt_contained memory input, ?_⟩
  intro stack inputLength macLength signatureLength
  by_cases le : inputLength ≤ macLength + signatureLength
  · have not_lt := UInt64.not_lt.mpr le
    exact (groupContained_early memory input stack le).trans
      ⟨fun absent => ⟨fun _ => absent, fun lt => absurd lt not_lt⟩, fun both => both.1 le⟩
  · have lt := UInt64.not_le.mp le
    exact (groupContained_late memory input stack lt).trans
      ⟨fun small => ⟨fun early => absurd early le, fun _ => small⟩, fun both => both.2 lt⟩

end Arbitrary

/-- An empty message, decoded into results that said there is a message index, and then say so still. -/
theorem group_decoder_not_contained : ¬ GroupContained (fun _ => 0) (.start ()) ⟨0, 0, true, .none⟩ 0 8 64 := by
  intro contained
  have absent := (groupContained_early (fun _ => 0) (.start ()) ⟨0, 0, true, .none⟩ (by decide)).mp contained
  cases absent

end RubyOlm
