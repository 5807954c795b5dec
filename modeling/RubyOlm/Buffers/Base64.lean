import Mathlib.Tactic.Tauto
import RubyOlm.Base64
import RubyOlm.Theory.Memory

/-!
# Base64 in buffers

The loops of `base64.cpp` over pointers. Both may run with input and output in one buffer: decoding from its
start to its start, encoding from its end to its start.
-/

namespace RubyOlm

open Prog

variable {B : Type} [DecidableEq B]

/-! ### Encoding -/

/-- The body of the loop over whole groups of three bytes. -/
def encodeBase64Group (_ : Unit) (pos output : Pointer B) : Prog B Unit := do
  let value := (← load pos).toNat
  let value := value <<< 8 ||| (← load (pos + 1)).toNat
  let value := value <<< 8 ||| (← load (pos + 2)).toNat
  store (output + 3) (encodeDigit (value &&& 0x3F))
  store (output + 2) (encodeDigit (value >>> 6 &&& 0x3F))
  store (output + 1) (encodeDigit (value >>> 12 &&& 0x3F))
  store output (encodeDigit (value >>> 18))

/-- `encode_base64` behind the loop, for one or two bytes that are left. -/
def encodeBase64Rest (remainder : Nat) (pos output : Pointer B) : Prog B (Pointer B) :=
  if remainder = 0 then pure output
  else if remainder = 2 then do
    let value := (← load pos).toNat
    let value := (value <<< 8 ||| (← load (pos + 1)).toNat) <<< 2
    store (output + 2) (encodeDigit (value &&& 0x3F))
    store (output + 1) (encodeDigit (value >>> 6 &&& 0x3F))
    store output (encodeDigit (value >>> 12))
    return output + 3
  else do
    let value := (← load pos).toNat <<< 4
    store (output + 1) (encodeDigit (value &&& 0x3F))
    store output (encodeDigit (value >>> 6))
    return output + 2

def encodeBase64At (input : Pointer B) (inputLength : Nat) (output : Pointer B) : Prog B (Pointer B) := do
  let whole := inputLength / 3
  groups encodeBase64Group 3 4 whole () input output
  encodeBase64Rest (inputLength % 3) (input + 3 * whole) (output + 4 * whole)

def encodeBase64Turn : Turn Unit where
  next _ _ := ()
  put _ bytes := encodeBase64 bytes

variable {P : Access B → Prop}

theorem encodeBase64Group_within (state : Unit) (pos output : Pointer B) (memory : Memory B) :
    (encodeBase64Group state pos output).Within memory P ↔ Covers P .read pos 3 ∧ Covers P .write output 4 := by
  simp only [encodeBase64Group, within_bind, within_load, within_store, covers_succ, covers_zero, true_and,
    Pointer.add_zero]
  tauto

theorem encodeBase64Group_does : Does (B := B) encodeBase64Group 3 4 encodeBase64Turn where
  value _ _ _ _ := rfl
  memory state pos output memory := by
    have taken : memory.read pos 3 = [memory pos, memory (pos + 1), memory (pos + 2)] := by
      rw [Memory.read_succ, Memory.read_succ, Memory.read_one, Pointer.add_add]
    have third : output + 3 = output + 2 + 1 := (Pointer.add_add output 2 1).symm
    have second : output + 2 = output + 1 + 1 := (Pointer.add_add output 1 1).symm
    simp only [encodeBase64Group, memory_bind, memory_load, value_load, memory_store]
    -- the characters are stored from the last to the first
    rw [third, Memory.write_one_before memory (output + 2), second, Memory.write_one_before memory (output + 1),
      Memory.write_one_before memory output, taken]
    rfl
  length state bytes three := by
    show (encodeBase64 bytes).length = 4
    rw [length_encodeBase64, three]
    rfl

theorem encodeBase64_append {whole : Bytes} {count : Nat} (length : whole.length = 3 * count) (rest : Bytes) :
    encodeBase64 (whole ++ rest) = encodeBase64Turn.outputs 3 count () whole ++ encodeBase64 rest := by
  induction count generalizing whole with
  | zero =>
    obtain rfl := List.length_eq_zero_iff.mp length
    rfl
  | succ count ih =>
    match whole, length with
    | a :: b :: c :: whole, length =>
      have shorter : whole.length = 3 * count := by
        simp only [List.length_cons] at length
        omega
      simp only [List.cons_append, encodeBase64, ih shorter]
      rfl

theorem encodeBase64Rest_within {remainder : Nat} (few : remainder < 3) (pos output : Pointer B) (memory : Memory B) :
    (encodeBase64Rest remainder pos output).Within memory P ↔
      Covers P .read pos remainder ∧ Covers P .write output (encodeBase64Length remainder) := by
  unfold encodeBase64Rest
  match remainder, few with
  | 0, _ => simp [encodeBase64Length]
  | 1, _ =>
    simp [encodeBase64Length, covers_succ, Pointer.add_zero]
    tauto
  | 2, _ =>
    simp [encodeBase64Length, covers_succ, Pointer.add_zero]
    tauto

theorem encodeBase64Rest_eq {remainder : Nat} (few : remainder < 3) (pos output : Pointer B) (memory : Memory B) :
    (encodeBase64Rest remainder pos output memory).value = output + encodeBase64Length remainder ∧
      (encodeBase64Rest remainder pos output memory).memory =
        memory.write output (encodeBase64 (memory.read pos remainder)) := by
  have second : output + 2 = output + 1 + 1 := (Pointer.add_add output 1 1).symm
  unfold encodeBase64Rest
  match remainder, few with
  | 0, _ =>
    refine ⟨(Pointer.add_zero output).symm, ?_⟩
    exact (Memory.write_nil memory output).symm
  | 1, _ =>
    refine ⟨rfl, ?_⟩
    simp only [Nat.one_ne_zero, if_false, OfNat.one_ne_ofNat, memory_bind, memory_load, value_load,
      memory_store, run_pure]
    rw [Memory.write_one_before, Memory.read_one]
    rfl
  | 2, _ =>
    refine ⟨rfl, ?_⟩
    simp only [OfNat.ofNat_ne_zero, if_false, if_true, memory_bind, memory_load, value_load,
      memory_store, run_pure]
    rw [second, Memory.write_one_before memory (output + 1), Memory.write_one_before memory output,
      Memory.read_succ, Memory.read_one]
    rfl

/-- Whole groups, and what is left behind them. -/
theorem encodeBase64Length_groups (inputLength : Nat) :
    4 * (inputLength / 3) + encodeBase64Length (inputLength % 3) = encodeBase64Length inputLength := by
  unfold encodeBase64Length
  omega

/-- `encode_base64` reads its input and writes its output, each to its end. -/
theorem encodeBase64At_within (input output : Pointer B) (inputLength : Nat) (memory : Memory B) :
    (encodeBase64At input inputLength output).Within memory P ↔
      Covers P .read input inputLength ∧ Covers P .write output (encodeBase64Length inputLength) := by
  have few : inputLength % 3 < 3 := Nat.mod_lt _ (by omega)
  have length : 3 * (inputLength / 3) + inputLength % 3 = inputLength := Nat.div_add_mod _ _
  have text := encodeBase64Length_groups inputLength
  rw [encodeBase64At, within_bind, groups_within encodeBase64Group_within, encodeBase64Rest_within few,
    forall₂_and, covers_mul, covers_mul, ← length, covers_add]
  rw [length, ← text, covers_add]
  tauto

/-- The output may lie anywhere in another buffer, and in the buffer of the input anywhere that leaves it behind the
input at their ends. -/
theorem encodeBase64At_eq (input output : Pointer B) (inputLength : Nat) (memory : Memory B)
    (behind : input.block = output.block →
      output.index + encodeBase64Length inputLength ≤ input.index + inputLength) :
    (encodeBase64At input inputLength output memory).value = output + encodeBase64Length inputLength ∧
      (encodeBase64At input inputLength output memory).memory =
        memory.write output (encodeBase64 (memory.read input inputLength)) := by
  have few : inputLength % 3 < 3 := Nat.mod_lt _ (by omega)
  have length : 3 * (inputLength / 3) + inputLength % 3 = inputLength := Nat.div_add_mod _ _
  have text := encodeBase64Length_groups inputLength
  obtain ⟨whole, hwhole⟩ : ∃ whole, inputLength / 3 = whole := ⟨_, rfl⟩
  obtain ⟨remainder, hremainder⟩ : ∃ remainder, inputLength % 3 = remainder := ⟨_, rfl⟩
  rw [hwhole, hremainder] at length text
  rw [hremainder] at few
  have trails : Trails 3 4 whole input output := by
    intro same turn lt
    have left := behind same
    unfold encodeBase64Length at left
    omega
  have does : Does (B := B) encodeBase64Group 3 4 encodeBase64Turn := encodeBase64Group_does
  obtain ⟨-, grouped⟩ := does.groups whole () input output memory trails
  have unread := does.groups_unread whole () input output memory trails remainder
  obtain ⟨value, left⟩ := encodeBase64Rest_eq few (input + 3 * whole) (output + 4 * whole)
    (groups encodeBase64Group 3 4 whole () input output memory).memory
  rw [encodeBase64At, value_bind, memory_bind, hwhole, hremainder, value, left, unread, grouped, ← length,
    Memory.read_add, encodeBase64_append (Memory.length_read ..), Memory.write_append,
    does.length_outputs _ _ _ (Memory.length_read ..), Pointer.add_add, length, text]
  exact ⟨rfl, rfl⟩

/-- Bytes that lie at the end of the room for their text are replaced by it. -/
theorem encodeBase64At_end (output : Pointer B) (raw : Bytes) (memory : Memory B) :
    (encodeBase64At (output + encodeBase64Length raw.length - raw.length) raw.length output
        (memory.write (output + encodeBase64Length raw.length - raw.length) raw)).memory =
      memory.write output (encodeBase64 raw) := by
  have fits := le_encodeBase64Length raw.length
  rw [Pointer.add_sub output fits]
  obtain ⟨-, left⟩ := encodeBase64At_eq (output + (encodeBase64Length raw.length - raw.length)) output raw.length
    (memory.write (output + (encodeBase64Length raw.length - raw.length)) raw)
    (fun _ => by rw [Pointer.index_add]; omega)
  rw [left, Memory.read_write, Memory.write_over _ _ _ (by rw [length_encodeBase64]; omega)]

/-! ### Decoding -/

/-- The body of the loop over whole groups of four characters. -/
def decodeBase64Group (_ : Unit) (pos output : Pointer B) : Prog B Unit := do
  let value := decodeDigit (← load pos)
  let value := value <<< 6 ||| decodeDigit (← load (pos + 1))
  let value := value <<< 6 ||| decodeDigit (← load (pos + 2))
  let value := value <<< 6 ||| decodeDigit (← load (pos + 3))
  store (output + 2) (UInt8.ofNat value)
  store (output + 1) (UInt8.ofNat (value >>> 8))
  store output (UInt8.ofNat (value >>> 16))

/-- `decode_base64` behind the loop. A single character is joined with whatever comes after it. -/
def decodeBase64Rest (remainder : Nat) (pos output : Pointer B) : Prog B Unit :=
  if remainder = 0 then pure ()
  else do
    let value := decodeDigit (← load pos)
    let value := value <<< 6 ||| decodeDigit (← load (pos + 1))
    if remainder = 3 then do
      let value := (value <<< 6 ||| decodeDigit (← load (pos + 2))) >>> 2
      store (output + 1) (UInt8.ofNat value)
      store output (UInt8.ofNat (value >>> 8))
    else store output (UInt8.ofNat (value >>> 4))

def decodeBase64At (input : Pointer B) (inputLength : Nat) (output : Pointer B) : Prog B (Pointer B) := do
  let whole := inputLength / 4
  groups decodeBase64Group 4 3 whole () input output
  decodeBase64Rest (inputLength % 4) (input + 4 * whole) (output + 3 * whole)
  return input + inputLength

/-- How many characters are read of `inputLength`. -/
def decodeBase64Reads (inputLength : Nat) : Nat := if inputLength % 4 = 1 then inputLength + 1 else inputLength

/-- How many bytes are written for `inputLength` characters. -/
def decodeBase64Writes (inputLength : Nat) : Nat := 3 * (inputLength / 4) + (inputLength % 4 + 1) / 2

theorem decodeBase64Length_eq {inputLength length : Nat} (decodes : decodeBase64Length inputLength = some length) :
    decodeBase64Reads inputLength = inputLength ∧ decodeBase64Writes inputLength = length := by
  unfold decodeBase64Length at decodes
  split at decodes
  · cases decodes
  · have length := Option.some.inj decodes
    unfold decodeBase64Reads decodeBase64Writes
    rw [if_neg (by assumption)]
    omega

def decodeBase64Turn : Turn Unit where
  next _ _ := ()
  put _ chars := decodeBase64 chars

theorem decodeBase64Group_within (state : Unit) (pos output : Pointer B) (memory : Memory B) :
    (decodeBase64Group state pos output).Within memory P ↔ Covers P .read pos 4 ∧ Covers P .write output 3 := by
  simp only [decodeBase64Group, within_bind, within_load, within_store, covers_succ, covers_zero, true_and,
    Pointer.add_zero]
  tauto

theorem decodeBase64Group_does : Does (B := B) decodeBase64Group 4 3 decodeBase64Turn where
  value _ _ _ _ := rfl
  memory state pos output memory := by
    have taken : memory.read pos 4 = [memory pos, memory (pos + 1), memory (pos + 2), memory (pos + 3)] := by
      rw [Memory.read_succ, Memory.read_succ, Memory.read_succ, Memory.read_one, Pointer.add_add, Pointer.add_add]
    have second : output + 2 = output + 1 + 1 := (Pointer.add_add output 1 1).symm
    simp only [decodeBase64Group, memory_bind, memory_load, value_load, memory_store]
    rw [second, Memory.write_one_before memory (output + 1), Memory.write_one_before memory output, taken]
    rfl
  length state chars four := by
    obtain ⟨a, b, c, d, rfl⟩ := List.length_eq_four.mp four
    rfl

theorem decodeBase64_append {whole : Bytes} {count : Nat} (length : whole.length = 4 * count) (rest : Bytes) :
    decodeBase64 (whole ++ rest) = decodeBase64Turn.outputs 4 count () whole ++ decodeBase64 rest := by
  induction count generalizing whole with
  | zero =>
    obtain rfl := List.length_eq_zero_iff.mp length
    rfl
  | succ count ih =>
    match whole, length with
    | a :: b :: c :: d :: whole, length =>
      have shorter : whole.length = 4 * count := by
        simp only [List.length_cons] at length
        omega
      simp only [List.cons_append, decodeBase64, ih shorter]
      rfl

theorem decodeBase64Rest_within {remainder : Nat} (few : remainder < 4) (pos output : Pointer B) (memory : Memory B) :
    (decodeBase64Rest remainder pos output).Within memory P ↔
      Covers P .read pos (decodeBase64Reads remainder) ∧ Covers P .write output (decodeBase64Writes remainder) := by
  unfold decodeBase64Rest
  match remainder, few with
  | 0, _ => simp [decodeBase64Reads, decodeBase64Writes]
  | 1, _ | 2, _ =>
    simp [decodeBase64Reads, decodeBase64Writes, covers_succ, Pointer.add_zero]
    tauto
  | 3, _ =>
    simp [decodeBase64Reads, decodeBase64Writes, covers_succ, Pointer.add_zero]
    tauto

theorem decodeBase64Rest_memory {remainder : Nat} (few : remainder < 4) (pos output : Pointer B)
    (memory : Memory B) : (decodeBase64Rest remainder pos output memory).memory =
      memory.write output (decodeBase64 (memory.read pos (decodeBase64Reads remainder))) := by
  have two : memory.read pos 2 = [memory pos, memory (pos + 1)] := by
    rw [Memory.read_succ, Memory.read_one]
  unfold decodeBase64Rest
  match remainder, few with
  | 0, _ => exact (Memory.write_nil memory output).symm
  | 1, _ | 2, _ =>
    show _ = memory.write output (decodeBase64 (memory.read pos 2))
    rw [two]
    rfl
  | 3, _ =>
    show _ = memory.write output (decodeBase64 (memory.read pos (2 + 1)))
    rw [Memory.read_add, two, Memory.read_one]
    exact Memory.write_one_before memory output _ _

theorem decodeBase64Reads_groups (inputLength : Nat) :
    decodeBase64Reads inputLength = 4 * (inputLength / 4) + decodeBase64Reads (inputLength % 4) := by
  unfold decodeBase64Reads
  split <;> split <;> omega

/-- `decode_base64` writes only its output, but of an input with a single character left at the end it reads one
more than there is. -/
theorem decodeBase64At_within (input output : Pointer B) (inputLength : Nat) (memory : Memory B) :
    (decodeBase64At input inputLength output).Within memory P ↔
      Covers P .read input (decodeBase64Reads inputLength) ∧
        Covers P .write output (decodeBase64Writes inputLength) := by
  have few : inputLength % 4 < 4 := Nat.mod_lt _ (by omega)
  have reads := decodeBase64Reads_groups inputLength
  have writes : decodeBase64Writes inputLength = 3 * (inputLength / 4) + decodeBase64Writes (inputLength % 4) := by
    unfold decodeBase64Writes
    omega
  rw [decodeBase64At, within_bind, groups_within decodeBase64Group_within, within_bind,
    decodeBase64Rest_within few, forall₂_and, covers_mul, covers_mul, reads, writes, covers_add, covers_add]
  simp only [within_pure]
  tauto

/-- The output may lie anywhere in another buffer, and in the buffer of the input anywhere before it. -/
theorem decodeBase64At_memory (input output : Pointer B) (inputLength : Nat) (memory : Memory B)
    (behind : input.block = output.block → output.index ≤ input.index) :
    (decodeBase64At input inputLength output memory).memory =
      memory.write output (decodeBase64 (memory.read input (decodeBase64Reads inputLength))) := by
  have few : inputLength % 4 < 4 := Nat.mod_lt _ (by omega)
  have reads := decodeBase64Reads_groups inputLength
  obtain ⟨whole, hwhole⟩ : ∃ whole, inputLength / 4 = whole := ⟨_, rfl⟩
  rw [hwhole] at reads
  have trails : Trails 4 3 whole input output := by
    intro same turn lt
    have left := behind same
    omega
  have does : Does (B := B) decodeBase64Group 4 3 decodeBase64Turn := decodeBase64Group_does
  obtain ⟨-, grouped⟩ := does.groups whole () input output memory trails
  have unread := does.groups_unread whole () input output memory trails
  rw [decodeBase64At, memory_bind, memory_bind, hwhole, decodeBase64Rest_memory few, unread, grouped, reads,
    Memory.read_add, decodeBase64_append (Memory.length_read ..), Memory.write_append,
    does.length_outputs _ _ _ (Memory.length_read ..)]
  rfl

/-! ### Round trip -/

theorem encodeDigit_mem {value : Nat} (digit : value < 64) : encodeDigit value ∈ encodeBase64Table := by
  have all : ∀ i : Fin 64, encodeDigit i ∈ encodeBase64Table := by decide
  exact all ⟨value, digit⟩

/-- Only characters of the alphabet are written. -/
theorem mem_encodeBase64Table (input : Bytes) : ∀ char ∈ encodeBase64 input, char ∈ encodeBase64Table := by
  induction input using encodeBase64.induct with
  | case1 a b c rest ih =>
    have := a.toNat_lt; have := b.toNat_lt; have := c.toNat_lt
    simp only [encodeBase64, join_byte, and_sixBits, Nat.shiftRight_eq_div_pow, List.forall_mem_cons]
    refine ⟨encodeDigit_mem ?_, encodeDigit_mem ?_, encodeDigit_mem ?_, encodeDigit_mem ?_, ih⟩
    all_goals omega
  | case2 a b =>
    have := a.toNat_lt; have := b.toNat_lt
    simp only [encodeBase64, join_byte, and_sixBits, Nat.shiftRight_eq_div_pow, Nat.shiftLeft_eq _ 2,
      List.forall_mem_cons]
    refine ⟨encodeDigit_mem ?_, encodeDigit_mem ?_, encodeDigit_mem ?_, List.forall_mem_nil _⟩
    all_goals omega
  | case3 a =>
    have := a.toNat_lt
    simp only [encodeBase64, and_sixBits, Nat.shiftRight_eq_div_pow, Nat.shiftLeft_eq _ 4, List.forall_mem_cons]
    refine ⟨encodeDigit_mem ?_, encodeDigit_mem ?_, List.forall_mem_nil _⟩
    all_goals omega
  | case4 => exact List.forall_mem_nil _

theorem encodeBase64At_writes (input output : Pointer B) (inputLength : Nat) (memory : Memory B) :
    (encodeBase64At input inputLength output).Writes memory output (encodeBase64Length inputLength) := by
  apply writes_of_within fun P => encodeBase64At_within input output inputLength memory
  intro P allowed i _
  exact allowed _

theorem decodeBase64At_writes (input output : Pointer B) (inputLength : Nat) (memory : Memory B) :
    (decodeBase64At input inputLength output).Writes memory output (decodeBase64Writes inputLength) := by
  apply writes_of_within fun P => decodeBase64At_within input output inputLength memory
  intro P allowed i _
  exact allowed _

/-- What `encode_base64` leaves of `bytes` at `text`, and `decode_base64` of that at `output`. -/
structure RoundTrip (bytes : Bytes) (memory : Memory B) (input text output : Pointer B) : Prop where
  encodes : (encodeBase64At input bytes.length text).Writes memory text (encodeBase64Length bytes.length)
  returns : (encodeBase64At input bytes.length text memory).value = text + encodeBase64Length bytes.length
  alphabet : ∀ char ∈ (encodeBase64At input bytes.length text memory).memory.read text (encodeBase64Length bytes.length),
    char ∈ encodeBase64Table
  length : decodeBase64Length (encodeBase64Length bytes.length) = some bytes.length
  decodes : (decodeBase64At text (encodeBase64Length bytes.length) output).Writes
    (encodeBase64At input bytes.length text memory).memory output bytes.length
  restores : (decodeBase64At text (encodeBase64Length bytes.length) output
    (encodeBase64At input bytes.length text memory).memory).memory.read output bytes.length = bytes

/-- Wherever the bytes, the characters and the decoded bytes lie, in three buffers or in one. -/
theorem base64_round_trip {bytes : Bytes} {memory : Memory B} {input text output : Pointer B}
    (holds : memory.read input bytes.length = bytes)
    (encodes : input.block = text.block →
      text.index + encodeBase64Length bytes.length ≤ input.index + bytes.length)
    (decodes : text.block = output.block → output.index ≤ text.index) : RoundTrip bytes memory input text output := by
  have length := decodeBase64Length_encode bytes.length
  obtain ⟨reads, writes⟩ := decodeBase64Length_eq length
  obtain ⟨returns, encoded⟩ := encodeBase64At_eq input text bytes.length memory encodes
  have chars : (encodeBase64At input bytes.length text memory).memory.read text (encodeBase64Length bytes.length) =
      encodeBase64 bytes := by
    rw [encoded, holds, Memory.read_write_of_length _ _ _ (length_encodeBase64 bytes)]
  have written := decodeBase64At_writes text output (encodeBase64Length bytes.length)
    (encodeBase64At input bytes.length text memory).memory
  have decoded := decodeBase64At_memory text output (encodeBase64Length bytes.length)
    (encodeBase64At input bytes.length text memory).memory decodes
  rw [writes] at written
  rw [reads, chars, decode_encodeBase64] at decoded
  refine ⟨encodeBase64At_writes input text bytes.length memory, returns, ?_, length, written, ?_⟩
  · rw [chars]
    exact mem_encodeBase64Table bytes
  · rw [decoded, Memory.read_write]

/-- Five bytes in the first of three buffers. -/
theorem base64_round_trip_hello :
    RoundTrip (ascii "hello") (Memory.write (fun _ => 0) (.start 0) (ascii "hello")) (.start 0) (.start 1)
      (.start (2 : Fin 3)) :=
  base64_round_trip (Memory.read_write _ _ _) (fun same => absurd same (by decide)) (fun same => absurd same (by decide))

/-! ### One buffer -/

/-- In one buffer as in two: encoding the last bytes of a buffer of `encode_base64_length` bytes to its start, and
decoding a buffer to its start. -/
theorem base64_in_place :
    (∀ (bytes : Bytes) (memory memory' : Memory B) (buffer input output : Pointer B),
      memory.read (buffer + (encodeBase64Length bytes.length - bytes.length)) bytes.length = bytes →
      memory'.read input bytes.length = bytes → input.block ≠ output.block →
      (encodeBase64At (buffer + (encodeBase64Length bytes.length - bytes.length)) bytes.length buffer
          memory).memory.read buffer (encodeBase64Length bytes.length) =
        (encodeBase64At input bytes.length output memory').memory.read output (encodeBase64Length bytes.length)) ∧
    ∀ (chars : Bytes) (length : Nat) (memory memory' : Memory B) (buffer input output : Pointer B),
      decodeBase64Length chars.length = some length →
      memory.read buffer chars.length = chars → memory'.read input chars.length = chars →
      input.block ≠ output.block →
      (decodeBase64At buffer chars.length buffer memory).memory.read buffer length =
        (decodeBase64At input chars.length output memory').memory.read output length := by
  constructor
  · intro bytes memory memory' buffer input output holds holds' apart
    have longer := le_encodeBase64Length bytes.length
    obtain ⟨-, inPlace⟩ := encodeBase64At_eq (buffer + (encodeBase64Length bytes.length - bytes.length)) buffer
      bytes.length memory fun _ => by
        rw [Pointer.index_add]
        omega
    obtain ⟨-, separate⟩ := encodeBase64At_eq input output bytes.length memory' fun same => absurd same apart
    rw [inPlace, separate, holds, holds', Memory.read_write_of_length _ _ _ (length_encodeBase64 bytes),
      Memory.read_write_of_length _ _ _ (length_encodeBase64 bytes)]
  · intro chars length memory memory' buffer input output decodes holds holds' apart
    have decoded := length_decodeBase64 chars decodes
    have inPlace := decodeBase64At_memory buffer buffer chars.length memory fun _ => Int.le_refl _
    have separate := decodeBase64At_memory input output chars.length memory' fun same => absurd same apart
    rw [(decodeBase64Length_eq decodes).1] at inPlace separate
    rw [inPlace, separate, holds, holds', Memory.read_write_of_length _ _ _ decoded,
      Memory.read_write_of_length _ _ _ decoded]

/-- Five bytes and their seven characters, in one buffer and in two others. -/
theorem base64_in_place_hello :
    let bytes := ascii "hello"
    let chars := ascii "aGVsbG8"
    let memory (p : Pointer (Fin 3)) := Memory.write (fun _ => 0) p bytes
    let memory' (p : Pointer (Fin 3)) := Memory.write (fun _ => 0) p chars
    let buffer : Pointer (Fin 3) := .start 0
    let input : Pointer (Fin 3) := .start 1
    let output : Pointer (Fin 3) := .start 2
    ((encodeBase64At (buffer + 2) 5 buffer (memory (buffer + 2))).memory.read buffer 7 =
        (encodeBase64At input 5 output (memory input)).memory.read output 7 ∧
      (encodeBase64At input 5 output (memory input)).memory.read output 7 = chars) ∧
      (decodeBase64At buffer 7 buffer (memory' buffer)).memory.read buffer 5 =
        (decodeBase64At input 7 output (memory' input)).memory.read output 5 ∧
      (decodeBase64At input 7 output (memory' input)).memory.read output 5 = bytes := by
  intro bytes chars memory memory' buffer input output
  obtain ⟨encodes, decodes⟩ := base64_in_place (B := Fin 3)
  have gap : encodeBase64Length bytes.length - bytes.length = 2 := by decide
  have encoded := encodes bytes (memory (buffer + 2)) (memory input) buffer input output
    (gap ▸ Memory.read_write _ _ _) (Memory.read_write _ _ _) (by decide)
  rw [gap, show bytes.length = 5 by decide, show encodeBase64Length 5 = 7 by decide] at encoded
  have decoded := decodes chars 5 (memory' buffer) (memory' input) buffer input output
    (by decide) (Memory.read_write _ _ _) (Memory.read_write _ _ _) (by decide)
  rw [show chars.length = 7 by decide] at decoded
  exact ⟨⟨encoded, by decide +kernel⟩, decoded, by decide +kernel⟩

end RubyOlm
