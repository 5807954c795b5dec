import RubyOlm.Buffers.Cipher
import RubyOlm.DoubleRatchet.OlmWire
import RubyOlm.DoubleRatchet.Symbolic

/-!
# Decryption of a ratchet in its buffers

`Ratchet::decrypt` over pointers. The MAC decides which key opens a message, but says nothing about the length of
the ciphertext: one who knows the key can choose any, and the cipher works on whole blocks.
-/

namespace RubyOlm

open Prog Pointer

/-- The buffers of `decrypt`. The ciphertext is a part of the message, under a name of its own because it is read
through a pointer of its own, `reader.ciphertext`. -/
inductive RatchetBuffer where
  | message
  | ciphertext
  | plaintext
  deriving DecidableEq

namespace Ratchet

variable (crypto : Crypto) (stack : MessageReader) (ratchet : Ratchet (Block 32)) (reader : CheckedReader Bytes)
  (maxPlaintextLength : Nat)

def verifyMacAndDecryptAt (messageKey : MessageKey (Block 32)) : Prog RatchetBuffer (Option Nat) :=
  aesSha256DecryptAt crypto.kdf crypto.aes (ascii "OLM_KEYS") messageKey.key.val (start .message) reader.input.length
    (start .ciphertext) reader.ciphertext.length (start .plaintext) maxPlaintextLength

def verifyMacAndDecryptForExistingChainAt (chain : ChainKey (Block 32)) : Prog RatchetBuffer (Option Nat) :=
  if reader.counter < chain.index then pure none
  else if (reader.counter - chain.index).toNat > maxMessageGap then pure none
  else
    let newChain := advanceWhile (olmRatchet crypto stack) reader.counter (turns chain reader.counter) chain
    verifyMacAndDecryptAt crypto reader maxPlaintextLength (createMessageKeys (olmRatchet crypto stack) newChain)

def verifyMacAndDecryptForNewChainAt : Prog RatchetBuffer (Option Nat) :=
  if ratchet.senderChain.empty then pure none
  else if reader.counter.toNat > maxMessageGap then pure none
  else
    let (_, chainKey) :=
      createChainKey (olmRatchet crypto stack) ratchet.rootKey ratchet.sender.ratchetKey reader.ratchetKey
    verifyMacAndDecryptForExistingChainAt crypto stack reader maxPlaintextLength chainKey

/-- The loop over `skipped_message_keys`. -/
def trySkippedAt : (skipped : List (SkippedMessageKey (Block 32))) → Prog RatchetBuffer (Option (Nat × Nat))
  | [] => pure none
  | key :: skipped => do
    let result ←
      if reader.counter = key.messageKey.index ∧ key.ratchetKey = reader.ratchetKey then
        verifyMacAndDecryptAt crypto reader maxPlaintextLength key.messageKey
      else pure none
    match result with
    | some length => return some (0, length)
    | none =>
      let found ← trySkippedAt skipped
      return found.map fun found => (found.1 + 1, found.2)

/-- `decrypt` of a message that passed the checks. -/
def decryptCheckedAt : Prog RatchetBuffer (Ratchet (Block 32) × Option Nat) :=
  let ops := olmRatchet crypto stack
  let failed := ({ ratchet with lastError := .badMessageMac }, none)
  match findChain reader.ratchetKey ratchet.receiverChains.toList with
  | none => do
    let result ← verifyMacAndDecryptForNewChainAt crypto stack ratchet reader maxPlaintextLength
    return match result with
      | none => failed
      | some length =>
        let ratchet := ratchet.startReceiverChain ops reader.ratchetKey
        (ratchet.moveChain ops 0 ratchet.receiver reader.counter, some length)
  | some (pos, chain) =>
    if chain.chainKey.index > reader.counter then do
      let found ← trySkippedAt crypto reader maxPlaintextLength ratchet.skippedMessageKeys.toList
      return match found with
        | none => failed
        | some (skipped, length) => (ratchet.removeSkipped ops skipped, some length)
    else do
      let result ← verifyMacAndDecryptForExistingChainAt crypto stack reader maxPlaintextLength chain.chainKey
      return match result with
        | none => failed
        | some length => (ratchet.moveChain ops pos chain reader.counter, some length)

/-- `decrypt` of the message in its buffer. -/
def decryptAt (inputLength : Nat) : Prog RatchetBuffer (Ratchet (Block 32) × Option Nat) := do
  let input ← loadBytes (start .message) inputLength
  match checkReader (olmRatchet crypto stack) input maxPlaintextLength with
  | .error error => return ({ ratchet with lastError := error }, none)
  | .ok reader => decryptCheckedAt crypto stack ratchet reader maxPlaintextLength

/-! ### The keys that are tried -/

def chainKeysTried (chain : ChainKey (Block 32)) : List (Block 32) :=
  if reader.counter < chain.index then []
  else if (reader.counter - chain.index).toNat > maxMessageGap then []
  else
    let newChain := advanceWhile (olmRatchet crypto stack) reader.counter (turns chain reader.counter) chain
    [(createMessageKeys (olmRatchet crypto stack) newChain).key]

def newChainKeysTried : List (Block 32) :=
  if ratchet.senderChain.empty then []
  else if reader.counter.toNat > maxMessageGap then []
  else
    let (_, chainKey) :=
      createChainKey (olmRatchet crypto stack) ratchet.rootKey ratchet.sender.ratchetKey reader.ratchetKey
    chainKeysTried crypto stack reader chainKey

def skippedKeysTried (skipped : List (SkippedMessageKey (Block 32))) : List (Block 32) :=
  (skipped.filter fun key =>
    reader.counter = key.messageKey.index ∧ key.ratchetKey = reader.ratchetKey).map fun key => key.messageKey.key

/-- The keys under which `decrypt` looks at the MAC of a message, until one fits. -/
def keysTried : List (Block 32) :=
  match findChain reader.ratchetKey ratchet.receiverChains.toList with
  | none => newChainKeysTried crypto stack ratchet reader
  | some (_, chain) =>
    if chain.chainKey.index > reader.counter then skippedKeysTried reader ratchet.skippedMessageKeys.toList
    else chainKeysTried crypto stack reader chain.chainKey

/-- Some key that is tried fits the MAC. -/
def MacVerifies : Prop :=
  ∃ key ∈ ratchet.keysTried crypto stack reader, Authentic crypto.kdf (ascii "OLM_KEYS") key.val reader.input

/-! ### What is touched -/

/-- Memory holds the message. -/
def Holds (memory : Memory RatchetBuffer) : Prop :=
  memory.read (start .message) reader.input.length = reader.input

/-- `P` allows what AES touches for a ciphertext of `length` bytes. -/
def AllowsCbc (P : Access RatchetBuffer → Prop) (length : Nat) : Prop :=
  Covers P .read (start .ciphertext) (16 * ((length + 15) / 16)) ∧
    Covers P .write (start .plaintext) (16 * ((length + 15) / 16)) ∧
    Covers P .read (start .plaintext) (16 * ((length + 15) / 16)) ∧ P ⟨.read, start .plaintext + length - 1⟩

/-- A program that looks at the MAC of the message under these keys, one after the other, until one opens it. -/
structure Tries {Result : Type} (length : Result → Nat) (x : Prog RatchetBuffer (Option Result))
    (keys : List (Block 32)) : Prop where
  within : ∀ {memory P}, Holds reader memory → Covers P .read (start .message) reader.input.length →
    (x.Within memory P ↔
      ((∃ key ∈ keys, Authentic crypto.kdf (ascii "OLM_KEYS") key.val reader.input) →
        AllowsCbc P reader.ciphertext.length))
  opened : ∀ {memory result}, Holds reader memory → (x memory).value = some result →
    (∃ key ∈ keys, Authentic crypto.kdf (ascii "OLM_KEYS") key.val reader.input) ∧
      length result ≤ reader.ciphertext.length
  holds : ∀ {memory}, Holds reader memory → Holds reader (x memory).memory

variable {crypto stack ratchet reader maxPlaintextLength}

theorem tries_nothing {Result : Type} (length : Result → Nat) : Tries crypto reader length (pure none) [] where
  within _ _ := by simp
  opened _ none := nomatch none
  holds held := held

/-- What the checks of the lengths give. -/
structure Room (reader : CheckedReader Bytes) (maxPlaintextLength : Nat) : Prop where
  plaintext : reader.ciphertext.length ≤ maxPlaintextLength
  mac : cipherMacLength ≤ reader.input.length

theorem tries_key (room : Room reader maxPlaintextLength) (messageKey : MessageKey (Block 32)) :
    Tries crypto reader id (verifyMacAndDecryptAt crypto reader maxPlaintextLength messageKey) [messageKey.key] where
  within {memory P} held read := by
    unfold verifyMacAndDecryptAt
    rw [aesSha256DecryptAt_within _ _ _ _ _ _ _ _ room.plaintext room.mac, held]
    simp only [read, true_and, List.mem_singleton, exists_eq_left]
    rfl
  opened {memory length} held opened := by
    have opens := aesSha256DecryptAt_opens _ _ _ _ _ _ _ _ room.mac opened
    rw [held] at opens
    exact ⟨⟨messageKey.key, List.mem_singleton_self _, opens.1⟩, opens.2⟩
  holds {memory} held := by
    have kept := Memory.read_congr fun i (_ : i < reader.input.length) =>
      aesSha256DecryptAt_keeps crypto.kdf crypto.aes (ascii "OLM_KEYS") messageKey.key.val (start .message)
        (start .ciphertext) (start .plaintext) reader.input.length reader.ciphertext.length maxPlaintextLength memory
        (by simp) (p := start .message + i) (fun same => nomatch same)
    exact kept.trans held

theorem tries_chain (room : Room reader maxPlaintextLength) (chain : ChainKey (Block 32)) :
    Tries crypto reader id
      (verifyMacAndDecryptForExistingChainAt crypto stack reader maxPlaintextLength chain)
      (chainKeysTried crypto stack reader chain) := by
  unfold verifyMacAndDecryptForExistingChainAt chainKeysTried
  split
  · exact tries_nothing id
  split
  · exact tries_nothing id
  · exact tries_key room _

theorem tries_newChain (room : Room reader maxPlaintextLength) :
    Tries crypto reader id (verifyMacAndDecryptForNewChainAt crypto stack ratchet reader maxPlaintextLength)
      (newChainKeysTried crypto stack ratchet reader) := by
  unfold verifyMacAndDecryptForNewChainAt newChainKeysTried
  split
  · exact tries_nothing id
  split
  · exact tries_nothing id
  · exact tries_chain room _

/-- One key after another: the second program runs only when the first has not opened the message. -/
theorem Tries.orElse {x : Prog RatchetBuffer (Option Nat)} {y : Prog RatchetBuffer (Option (Nat × Nat))}
    {keys keys' : List (Block 32)} (first : Tries crypto reader id x keys)
    (rest : Tries crypto reader Prod.snd y keys') :
    Tries crypto reader Prod.snd
      (do
        let result ← x
        match result with
        | some length => return some (0, length)
        | none =>
          let found ← y
          return found.map fun found => (found.1 + 1, found.2))
      (keys ++ keys') where
  within {memory P} held read := by
    have either : (∃ key ∈ keys ++ keys', Authentic crypto.kdf (ascii "OLM_KEYS") key.val reader.input) ↔
        (∃ key ∈ keys, Authentic crypto.kdf (ascii "OLM_KEYS") key.val reader.input) ∨
          ∃ key ∈ keys', Authentic crypto.kdf (ascii "OLM_KEYS") key.val reader.input := by
      simp only [List.mem_append, or_and_right, exists_or]
    rw [within_bind, first.within held read, either, or_imp]
    cases opened : (x memory).value with
    | none =>
      simp only [within_bind, within_pure, and_true]
      rw [rest.within (first.holds held) read]
    | some length =>
      simp only [within_pure, and_true]
      have fits := (first.opened held opened).1
      exact ⟨fun allows => ⟨allows, fun _ => allows fits⟩, fun both => both.1⟩
  opened {memory result} held opened := by
    rw [value_bind] at opened
    cases first_opened : (x memory).value with
    | none =>
      simp only [first_opened, value_bind, run_pure, Option.map_eq_some_iff] at opened
      obtain ⟨found, rest_opened, rfl⟩ := opened
      obtain ⟨⟨key, mem, fits⟩, short⟩ := rest.opened (first.holds held) rest_opened
      exact ⟨⟨key, List.mem_append_right _ mem, fits⟩, short⟩
    | some length =>
      simp only [first_opened, run_pure, Option.some.injEq] at opened
      obtain rfl := opened
      obtain ⟨⟨key, mem, fits⟩, short⟩ := first.opened held first_opened
      exact ⟨⟨key, List.mem_append_left _ mem, fits⟩, short⟩
  holds {memory} held := by
    rw [memory_bind]
    cases (x memory).value with
    | none => exact rest.holds (first.holds held)
    | some length => exact first.holds held

theorem tries_skipped (room : Room reader maxPlaintextLength) (skipped : List (SkippedMessageKey (Block 32))) :
    Tries crypto reader Prod.snd (trySkippedAt crypto reader maxPlaintextLength skipped)
      (skippedKeysTried reader skipped) := by
  induction skipped with
  | nil => exact tries_nothing Prod.snd
  | cons key skipped ih =>
    by_cases found : reader.counter = key.messageKey.index ∧ key.ratchetKey = reader.ratchetKey
    · have keys : skippedKeysTried reader (key :: skipped) =
          [key.messageKey.key] ++ skippedKeysTried reader skipped := by
        rw [skippedKeysTried, List.filter_cons_of_pos (by simpa using found)]
        rfl
      rw [trySkippedAt, if_pos found, keys]
      exact (tries_key room key.messageKey).orElse ih
    · have keys : skippedKeysTried reader (key :: skipped) = [] ++ skippedKeysTried reader skipped := by
        rw [skippedKeysTried, List.filter_cons_of_neg (by simpa using found)]
        rfl
      rw [trySkippedAt, if_neg found, keys]
      exact (tries_nothing id).orElse ih

theorem decryptCheckedAt_within (room : Room reader maxPlaintextLength) {memory : Memory RatchetBuffer}
    {P : Access RatchetBuffer → Prop} (held : Holds reader memory)
    (read : Covers P .read (start .message) reader.input.length) :
    (decryptCheckedAt crypto stack ratchet reader maxPlaintextLength).Within memory P ↔
      (MacVerifies crypto stack ratchet reader → AllowsCbc P reader.ciphertext.length) := by
  unfold decryptCheckedAt MacVerifies keysTried
  dsimp only
  split
  · rw [within_bind, (tries_newChain room).within held read]
    simp only [within_pure, and_true]
  split
  · rw [within_bind, (tries_skipped room _).within held read]
    simp only [within_pure, and_true]
  · rw [within_bind, (tries_chain room _).within held read]
    simp only [within_pure, and_true]

theorem decryptCheckedAt_le (room : Room reader maxPlaintextLength) {memory : Memory RatchetBuffer}
    (held : Holds reader memory) {length : Nat}
    (opened : (decryptCheckedAt crypto stack ratchet reader maxPlaintextLength memory).value.2 = some length) :
    length ≤ reader.ciphertext.length := by
  unfold decryptCheckedAt at opened
  cases found : findChain reader.ratchetKey ratchet.receiverChains.toList with
  | none =>
    simp only [found, value_bind, run_pure] at opened
    split at opened
    · cases opened
    · rename_i opens
      exact Option.some.inj opened ▸ ((tries_newChain room).opened held opens).2
  | some chain =>
    by_cases passed : chain.2.chainKey.index > reader.counter
    · simp only [found, if_pos passed, value_bind, run_pure] at opened
      split at opened
      · cases opened
      · rename_i opens
        exact Option.some.inj opened ▸ ((tries_skipped room _).opened held opens).2
    · simp only [found, if_neg passed, value_bind, run_pure] at opened
      split at opened
      · cases opened
      · rename_i opens
        exact Option.some.inj opened ▸ ((tries_chain room _).opened held opens).2

/-! ### What is returned -/

/-- The library where a read outside the buffers finds what memory holds there. -/
def surrounded (crypto : Crypto) (ciphertextLength : Nat) (memory : Memory RatchetBuffer) : Crypto :=
  { crypto with aes := crypto.aes.around memory (start .ciphertext) ciphertextLength (start .plaintext) }

/-- Memories that differ in the plaintext only. -/
def SameInput (memory memory' : Memory RatchetBuffer) : Prop :=
  ∀ p, (p.block = .plaintext → p.index < 0) → memory' p = memory p

/-- A program that returns the length of a result, leaves the text at the plaintext and changes nothing else. -/
structure Computes {Result Result' : Type} (memory : Memory RatchetBuffer) (length : Result → Result')
    (text : Result → Bytes) (x : Prog RatchetBuffer (Option Result')) (result : Option Result) : Prop where
  value : ∀ {memory'}, SameInput memory memory' → (x memory').value = result.map length
  text : ∀ {memory'}, SameInput memory memory' → ∀ found, result = some found →
    (x memory').memory.read (start .plaintext) (text found).length = text found
  same : ∀ {memory'}, SameInput memory memory' → SameInput memory (x memory').memory

theorem computes_nothing {Result Result' : Type} (memory : Memory RatchetBuffer) (length : Result → Result')
    (text : Result → Bytes) : Computes memory length text (pure none) none where
  value _ := rfl
  text _ _ none := nomatch none
  same same := same

theorem Computes.orElse {memory : Memory RatchetBuffer} {x : Prog RatchetBuffer (Option Nat)}
    {y : Prog RatchetBuffer (Option (Nat × Nat))} {result : Option Bytes} {result' : Option (Nat × Bytes)} :
    Computes memory List.length id x result →
    Computes memory (fun found : Nat × Bytes => (found.1, found.2.length)) Prod.snd y result' →
    Computes memory (fun found : Nat × Bytes => (found.1, found.2.length)) Prod.snd
      (do
        let result ← x
        match result with
        | some length => return some (0, length)
        | none =>
          let found ← y
          return found.map fun found => (found.1 + 1, found.2))
      (match result with
        | some plaintext => some (0, plaintext)
        | none => result'.map fun found => (found.1 + 1, found.2)) := by
  intro first rest
  cases result with
  | none =>
    have none {memory' : Memory RatchetBuffer} (same : SameInput memory memory') : (x memory').value = none :=
      first.value same
    constructor
    · intro memory' same
      rw [value_bind, none same, value_bind, rest.value (first.same same), run_pure, Option.map_map, Option.map_map]
      rfl
    · intro memory' same found opened
      obtain ⟨found', rest_opened, rfl⟩ := Option.map_eq_some_iff.mp opened
      rw [memory_bind, none same]
      exact rest.text (first.same same) found' rest_opened
    · intro memory' same
      rw [memory_bind, none same]
      exact rest.same (first.same same)
  | some plaintext =>
    have some {memory' : Memory RatchetBuffer} (same : SameInput memory memory') :
        (x memory').value = some plaintext.length := first.value same
    constructor
    · intro memory' same
      rw [value_bind, some same]
      rfl
    · intro memory' same found opened
      obtain rfl := Option.some.inj opened
      rw [memory_bind, some same]
      exact first.text same plaintext rfl
    · intro memory' same
      rw [memory_bind, some same]
      exact first.same same

/-- The keys of a chain have nothing to do with the block cipher. -/
theorem advanceWhile_surrounded (length : Nat) (memory : Memory RatchetBuffer) (counter : UInt32) (fuel : Nat)
    (chain : ChainKey (Block 32)) :
    advanceWhile (olmRatchet (surrounded crypto length memory) stack) counter fuel chain =
      advanceWhile (olmRatchet crypto stack) counter fuel chain := by
  induction fuel generalizing chain with
  | zero => rfl
  | succ fuel ih =>
    rw [advanceWhile, advanceWhile, ih]
    rfl

theorem skipWhile_surrounded (length : Nat) (memory : Memory RatchetBuffer) (counter : UInt32) (fuel : Nat)
    (chain : ReceiverChain (Block 32)) (skipped : OlmList (SkippedMessageKey (Block 32)) maxSkippedMessageKeys) :
    skipWhile (olmRatchet (surrounded crypto length memory) stack) counter fuel chain skipped =
      skipWhile (olmRatchet crypto stack) counter fuel chain skipped := by
  induction fuel generalizing chain skipped with
  | zero => rfl
  | succ fuel ih =>
    rw [skipWhile, skipWhile, ih]
    rfl

theorem moveChain_surrounded (length : Nat) (memory : Memory RatchetBuffer) (ratchet : Ratchet (Block 32)) (pos : Nat)
    (chain : ReceiverChain (Block 32)) (counter : UInt32) :
    ratchet.moveChain (olmRatchet (surrounded crypto length memory) stack) pos chain counter =
      ratchet.moveChain (olmRatchet crypto stack) pos chain counter := by
  unfold moveChain
  rw [skipWhile_surrounded]
  rfl

section Computes

variable {memory : Memory RatchetBuffer} (held : Holds reader memory)
  (viewed : memory.read (start .ciphertext) reader.ciphertext.length = reader.ciphertext)

include held viewed

theorem computes_key (messageKey : MessageKey (Block 32)) :
    Computes memory List.length id (verifyMacAndDecryptAt crypto reader maxPlaintextLength messageKey)
      (verifyMacAndDecrypt (olmRatchet (surrounded crypto reader.ciphertext.length memory) stack) messageKey reader
        maxPlaintextLength) := by
  have opens {memory' : Memory RatchetBuffer} (same : SameInput memory memory') :=
    aesSha256DecryptAt_eq crypto.kdf crypto.aes (ascii "OLM_KEYS") messageKey.key.val (start .message)
      (start .ciphertext) (start .plaintext) reader.input.length reader.ciphertext.length maxPlaintextLength memory'
      (Aes.clear_other (by simp) _ _)
  have message {memory' : Memory RatchetBuffer} (same : SameInput memory memory') :
      memory'.read (start .message) reader.input.length = reader.input :=
    (Memory.read_congr fun i _ => same (start .message + i) (fun block => nomatch block)).trans held
  have text {memory' : Memory RatchetBuffer} (same : SameInput memory memory') :
      memory'.read (start .ciphertext) reader.ciphertext.length = reader.ciphertext :=
    (Memory.read_congr fun i _ => same (start .ciphertext + i) (fun block => nomatch block)).trans viewed
  have around {memory' : Memory RatchetBuffer} (same : SameInput memory memory') :
      crypto.aes.around memory' (start .ciphertext) reader.ciphertext.length (start .plaintext) =
        crypto.aes.around memory (start .ciphertext) reader.ciphertext.length (start .plaintext) := by
    unfold Aes.around
    congr 1
    funext i
    split
    · exact same _ (fun block => nomatch block)
    · exact same _ (fun _ => by decide)
  constructor
  · intro memory' same
    have opened := (opens same).1
    rw [message same, text same, around same] at opened
    exact opened
  · intro memory' same found result
    have opened := (opens same).2
    rw [message same, text same, around same] at opened
    exact opened found result
  · intro memory' same p outside
    rw [← same p outside]
    exact aesSha256DecryptAt_keeps _ _ _ _ _ _ _ _ _ _ _ (by simp) outside

theorem computes_chain (chain : ChainKey (Block 32)) :
    Computes memory List.length id
      (verifyMacAndDecryptForExistingChainAt crypto stack reader maxPlaintextLength chain)
      (verifyMacAndDecryptForExistingChain (olmRatchet (surrounded crypto reader.ciphertext.length memory) stack) chain
        reader maxPlaintextLength) := by
  unfold verifyMacAndDecryptForExistingChainAt verifyMacAndDecryptForExistingChain
  split
  · exact computes_nothing memory List.length id
  split
  · exact computes_nothing memory List.length id
  · rw [advanceWhile_surrounded]
    exact computes_key held viewed _

theorem computes_newChain :
    Computes memory List.length id (verifyMacAndDecryptForNewChainAt crypto stack ratchet reader maxPlaintextLength)
      (verifyMacAndDecryptForNewChain (olmRatchet (surrounded crypto reader.ciphertext.length memory) stack) ratchet
        reader maxPlaintextLength) := by
  unfold verifyMacAndDecryptForNewChainAt verifyMacAndDecryptForNewChain
  split
  · exact computes_nothing memory List.length id
  split
  · exact computes_nothing memory List.length id
  · exact computes_chain held viewed _

theorem computes_skipped (skipped : List (SkippedMessageKey (Block 32))) :
    Computes memory (fun found : Nat × Bytes => (found.1, found.2.length)) Prod.snd
      (trySkippedAt crypto reader maxPlaintextLength skipped)
      (trySkipped (olmRatchet (surrounded crypto reader.ciphertext.length memory) stack) reader maxPlaintextLength
        skipped) := by
  induction skipped with
  | nil => exact computes_nothing memory _ _
  | cons key skipped ih =>
    rw [trySkippedAt, trySkipped]
    by_cases found : reader.counter = key.messageKey.index ∧ key.ratchetKey = reader.ratchetKey
    · simp only [if_pos found]
      exact Computes.orElse (computes_key held viewed _) ih
    · simp only [if_neg found]
      exact Computes.orElse (computes_nothing memory List.length id) ih

/-- The new state, what is returned and what is left at the plaintext are the results of `decryptChecked`, in these
surroundings. -/
theorem decryptCheckedAt_eq :
    let ops := olmRatchet (surrounded crypto reader.ciphertext.length memory) stack
    let result := ratchet.decryptChecked ops reader maxPlaintextLength
    let left := decryptCheckedAt crypto stack ratchet reader maxPlaintextLength memory
    left.value = (result.1, result.2.map List.length) ∧
      ∀ text, result.2 = some text → left.memory.read (start .plaintext) text.length = text := by
  have here : SameInput memory memory := fun _ _ => rfl
  dsimp only
  unfold decryptCheckedAt decryptChecked
  cases found : findChain reader.ratchetKey ratchet.receiverChains.toList with
  | none =>
    obtain ⟨value, text, -⟩ : Computes memory List.length id
      (verifyMacAndDecryptForNewChainAt crypto stack ratchet reader maxPlaintextLength) _ :=
      computes_newChain held viewed
    simp only [value_bind, memory_bind, run_pure, value here]
    have left := text here
    revert left
    generalize verifyMacAndDecryptForNewChain _ ratchet reader maxPlaintextLength = result
    intro left
    cases result with
    | none => exact ⟨rfl, fun text none => nomatch none⟩
    | some plaintext => exact ⟨by rw [Option.map_some, moveChain_surrounded]; rfl, left⟩
  | some chain =>
    by_cases passed : chain.2.chainKey.index > reader.counter
    · obtain ⟨value, text, -⟩ : Computes memory (fun found : Nat × Bytes => (found.1, found.2.length)) Prod.snd
        (trySkippedAt crypto reader maxPlaintextLength ratchet.skippedMessageKeys.toList) _ :=
        computes_skipped held viewed _
      simp only [if_pos passed, value_bind, memory_bind, run_pure, value here]
      have left := text here
      revert left
      generalize trySkipped _ reader maxPlaintextLength ratchet.skippedMessageKeys.toList = result
      intro left
      cases result with
      | none => exact ⟨rfl, fun text none => nomatch none⟩
      | some found => exact ⟨rfl, fun text same => Option.some.inj same ▸ left found rfl⟩
    · obtain ⟨value, text, -⟩ : Computes memory List.length id
        (verifyMacAndDecryptForExistingChainAt crypto stack reader maxPlaintextLength chain.2.chainKey) _ :=
        computes_chain held viewed _
      simp only [if_neg passed, value_bind, memory_bind, run_pure, value here]
      have left := text here
      revert left
      generalize verifyMacAndDecryptForExistingChain _ chain.2.chainKey reader maxPlaintextLength = result
      intro left
      cases result with
      | none => exact ⟨rfl, fun text none => nomatch none⟩
      | some plaintext => exact ⟨by rw [Option.map_some, moveChain_surrounded], left⟩

end Computes

/-! ### Messages that were checked -/

theorem Room.of_checked {input : Bytes}
    (checked : checkReader (olmRatchet crypto stack) input maxPlaintextLength = .ok reader) :
    reader.input = input ∧ Room reader maxPlaintextLength ∧
      ((olmRatchet crypto stack).wire.read input).ciphertext = some reader.ciphertext := by
  have long (text : Bytes) (found : ((olmRatchet crypto stack).wire.read input).ciphertext = some text) :
      cipherMacLength ≤ input.length := by
    by_contra short
    have nothing : (decodeMessage stack input cipherMacLength).ciphertext = none := by
      rw [decodeMessage, if_pos (by omega)]
    have found : (decodeMessage stack input cipherMacLength).ciphertext.map (fun span => span.read input) =
        some text := found
    rw [nothing] at found
    cases found
  unfold checkReader at checked
  dsimp only at checked
  split at checked
  · cases checked
  split at checked
  · rename_i ciphertext _ _ found
    split at checked
    · cases checked
    split at checked
    · cases checked
    · rename_i fits _
      obtain rfl := Except.ok.inj checked
      have fits : ¬ maxPlaintextLength < ciphertext.length := fits
      exact ⟨rfl, ⟨Nat.not_lt.mp fits, long _ found⟩, found⟩
  · cases checked

/-- Reads of the ciphertext and writes of the plaintext stay inside their buffers. -/
def Contained (ciphertextLength plaintextLength : Nat) (access : Access RatchetBuffer) : Prop :=
  Inside .read .ciphertext ciphertextLength access ∧ Inside .write .plaintext plaintextLength access

theorem allowsCbc_contained_iff (length : Nat) : AllowsCbc (Contained length length) length ↔ 16 ∣ length := by
  have whole : 16 * ((length + 15) / 16) ≤ length ↔ 16 ∣ length := by omega
  unfold AllowsCbc Contained
  simp only [covers_and, covers_inside]
  simp [Inside, whole]

/-- With the reads of the plaintext: of an empty ciphertext the byte before the plaintext is taken for the padding. -/
theorem allowsCbc_plaintext_iff (length : Nat) :
    AllowsCbc (Inside .read .plaintext length) length ↔ 16 ∣ length ∧ length ≠ 0 := by
  have whole : 16 * ((length + 15) / 16) ≤ length ↔ 16 ∣ length := by omega
  have last : Inside .read .plaintext length ⟨.read, start RatchetBuffer.plaintext + length - 1⟩ ↔ length ≠ 0 := by
    constructor
    · intro inside
      have inside : (0 : Int) ≤ 0 + length - 1 ∧ (0 : Int) + length - 1 < length := inside rfl rfl
      omega
    · intro positive _ _
      show (0 : Int) ≤ 0 + length - 1 ∧ (0 : Int) + length - 1 < length
      omega
  unfold AllowsCbc
  rw [last]
  simp [covers_inside, whole]

theorem decryptAt_within {memory : Memory RatchetBuffer} {inputLength : Nat} {P : Access RatchetBuffer → Prop}
    (checked : checkReader (olmRatchet crypto stack) (memory.read (start .message) inputLength) maxPlaintextLength =
      .ok reader) (read : Covers P .read (start .message) inputLength) :
    (decryptAt crypto stack ratchet maxPlaintextLength inputLength).Within memory P ↔
      (MacVerifies crypto stack ratchet reader → AllowsCbc P reader.ciphertext.length) := by
  obtain ⟨input, room, -⟩ := Room.of_checked checked
  have length : reader.input.length = inputLength := by
    rw [input, Memory.length_read]
  have held : Holds reader memory := by
    rw [Holds, length, input]
  rw [decryptAt, within_bind, within_loadBytes, value_loadBytes, memory_loadBytes, checked]
  dsimp only
  rw [decryptCheckedAt_within room held (length ▸ read)]
  exact ⟨fun both => both.2, fun allows => ⟨read, allows⟩⟩

theorem decryptAt_le {memory : Memory RatchetBuffer} {inputLength length : Nat}
    (checked : checkReader (olmRatchet crypto stack) (memory.read (start .message) inputLength) maxPlaintextLength =
      .ok reader)
    (opened : (decryptAt crypto stack ratchet maxPlaintextLength inputLength memory).value.2 = some length) :
    length ≤ reader.ciphertext.length := by
  obtain ⟨input, room, -⟩ := Room.of_checked checked
  have held : Holds reader memory := by
    rw [Holds, input, Memory.length_read]
  rw [decryptAt, value_bind, value_loadBytes, memory_loadBytes, checked] at opened
  exact decryptCheckedAt_le room held opened

variable (crypto stack ratchet)

/-- For every ratchet and every message that a key of it fits, with as much room for the plaintext as
`decrypt_max_plaintext_length` asks for: decryption stays inside the ciphertext and the plaintext exactly when the
ciphertext consists of whole blocks. It also stays inside them where it reads back what it has written when, besides,
there is a block at all. -/
theorem decrypt_contained_iff {memory : Memory RatchetBuffer} {inputLength maxPlaintextLength : Nat}
    {reader : CheckedReader Bytes}
    (max : (ratchet.decryptMaxPlaintextLength (olmRatchet crypto stack)
      (memory.read (start .message) inputLength)).2 = some maxPlaintextLength)
    (checked : checkReader (olmRatchet crypto stack) (memory.read (start .message) inputLength) maxPlaintextLength =
      .ok reader)
    (verifies : MacVerifies crypto stack ratchet reader) :
    ((decryptAt crypto stack ratchet maxPlaintextLength inputLength).Within memory
          (Contained reader.ciphertext.length maxPlaintextLength) ∧
        (∀ length, (decryptAt crypto stack ratchet maxPlaintextLength inputLength memory).value.2 = some length →
          length ≤ maxPlaintextLength) ↔
      16 ∣ reader.ciphertext.length) ∧
    ((decryptAt crypto stack ratchet maxPlaintextLength inputLength).Within memory (fun access =>
          Contained reader.ciphertext.length maxPlaintextLength access ∧
            Inside .read .plaintext maxPlaintextLength access) ↔
      16 ∣ reader.ciphertext.length ∧ reader.ciphertext.length ≠ 0) := by
  obtain ⟨input, room, found⟩ := Room.of_checked checked
  have max_eq : maxPlaintextLength = reader.ciphertext.length := by
    rw [decryptMaxPlaintextLength, found] at max
    exact (Option.some.inj max).symm
  have message : Covers (Contained reader.ciphertext.length reader.ciphertext.length) .read (start .message)
      inputLength := by
    unfold Contained
    simp [covers_and, covers_inside]
  have message_plaintext : Covers (Inside .read .plaintext reader.ciphertext.length) .read
      (start RatchetBuffer.message) inputLength := by
    simp [covers_inside]
  rw [within_and]
  subst max_eq
  rw [decryptAt_within checked message, decryptAt_within checked message_plaintext, allowsCbc_contained_iff,
    allowsCbc_plaintext_iff]
  refine ⟨⟨fun inside => inside.1 verifies, fun whole => ⟨fun _ => whole, fun length => decryptAt_le checked⟩⟩, ?_⟩
  exact ⟨fun inside => inside.2 verifies, fun whole => ⟨fun _ => whole.1, fun _ => whole⟩⟩

/-! ### Messages with any ciphertext -/

/-- A message as anyone who knows the message key can write it, around any bytes for a ciphertext. -/
def messageAround (crypto : Crypto) (key : Block 32) (counter : UInt32) (ratchetKey : PublicKey) (text : Bytes) : Bytes :=
  let body := messageHeader protocolVersion counter ratchetKey.val text.length ++ text
  body ++ truncatedMac crypto.kdf (deriveKeys crypto.kdf (ascii "OLM_KEYS") key.val) body

theorem authentic_messageAround (key : Block 32) (counter : UInt32) (ratchetKey : PublicKey) (text : Bytes) :
    Authentic crypto.kdf (ascii "OLM_KEYS") key.val (messageAround crypto key counter ratchetKey text) := by
  rw [Authentic, messageAround, List.length_append, length_truncatedMac, Nat.add_sub_cancel, List.drop_left,
    List.take_left]

theorem checkReader_messageAround (key : Block 32) (counter : UInt32) (ratchetKey : PublicKey) (text : Bytes)
    (short : text.length < 2 ^ 64) :
    checkReader (olmRatchet crypto stack) (messageAround crypto key counter ratchetKey text) text.length =
      .ok ⟨messageAround crypto key counter ratchetKey text, counter, ratchetKey, text⟩ := by
  obtain ⟨keySpan, textSpan, decoded, key_read, text_read⟩ := decodeMessage_eq stack protocolVersion counter
    ratchetKey.val text _ (by rw [Block.length_val]; decide) short
    (rfl : _ = messageAround crypto key counter ratchetKey text)
  rw [length_truncatedMac] at decoded
  have reading : (olmRatchet crypto stack).wire.read (messageAround crypto key counter ratchetKey text) =
      ⟨protocolVersion, ⟨counter, true⟩, some ratchetKey.val, some text⟩ := by
    show Reading.mk _ _ _ _ = _
    have mac_eq : (olmCipher crypto).macLength = cipherMacLength := rfl
    simp only [mac_eq, decoded, Option.map_some, key_read, text_read]
  have room : ¬ text.length < (olmRatchet crypto stack).wire.maxPlaintextLength text.length := Nat.lt_irrefl _
  have key_length : ¬ ratchetKey.val.length ≠ 32 := fun differs => differs ratchetKey.property
  unfold checkReader
  simp only [reading, ne_eq, not_true_eq_false, if_false, if_neg room, if_neg key_length, Block.load_val]

def clearedReader : MessageReader := ⟨0, ⟨0, false⟩, none, none⟩

/-- A ratchet that waits for its first message, under a ratchet key of zeros. -/
def waiting : Ratchet (Block 32) :=
  (clearedRatchet (Block.zero 32)).initialiseAsBob (olmRatchet Crypto.plain clearedReader) [] (Block.zero 32)

def waitingKey : Block 32 := (createMessageKeys (olmRatchet Crypto.plain clearedReader) waiting.receiver.chainKey).key

/-- Memory with the first message for it, around `text`. -/
def firstMessage (text : Bytes) : Memory RatchetBuffer :=
  Memory.write (fun _ => 0) (start .message) (messageAround Crypto.plain waitingKey 0 (Block.zero 32) text)

theorem verifies_waiting (input text : Bytes)
    (same : input = messageAround Crypto.plain waitingKey 0 (Block.zero 32) text) :
    MacVerifies Crypto.plain clearedReader waiting ⟨input, 0, Block.zero 32, text⟩ := by
  have chain : findChain (Block.zero 32) waiting.receiverChains.toList = some (0, waiting.receiver) := by decide
  have index : ¬ waiting.receiver.chainKey.index > 0 := by decide
  have tried : waitingKey ∈ keysTried Crypto.plain clearedReader waiting ⟨input, 0, Block.zero 32, text⟩ := by
    unfold keysTried
    simp only [chain, if_neg index]
    rw [chainKeysTried, if_neg (show ¬ (0 : UInt32) < waiting.receiver.chainKey.index by decide),
      if_neg (show ¬ ((0 : UInt32) - waiting.receiver.chainKey.index).toNat > maxMessageGap by decide)]
    exact List.mem_singleton_self _
  exact ⟨waitingKey, tried, same ▸ authentic_messageAround Crypto.plain waitingKey 0 (Block.zero 32) text⟩

theorem read_firstMessage (text : Bytes) : (firstMessage text).read (start .message)
    (messageAround Crypto.plain waitingKey 0 (Block.zero 32) text).length =
    messageAround Crypto.plain waitingKey 0 (Block.zero 32) text :=
  Memory.read_write _ _ _

theorem checked_firstMessage (text : Bytes) (short : text.length < 2 ^ 64) :
    (waiting.decryptMaxPlaintextLength (olmRatchet Crypto.plain clearedReader)
      (messageAround Crypto.plain waitingKey 0 (Block.zero 32) text)).2 = some text.length ∧
    checkReader (olmRatchet Crypto.plain clearedReader)
      (messageAround Crypto.plain waitingKey 0 (Block.zero 32) text) text.length =
      .ok ⟨messageAround Crypto.plain waitingKey 0 (Block.zero 32) text, 0, Block.zero 32, text⟩ := by
  have checked := checkReader_messageAround Crypto.plain clearedReader waitingKey 0 (Block.zero 32) text short
  refine ⟨?_, checked⟩
  rw [decryptMaxPlaintextLength, (Room.of_checked checked).2.2]
  rfl

/-- A message with one whole block. -/
theorem decrypt_contained_iff_block :
    let text := List.replicate 16 (0 : UInt8)
    (decryptAt Crypto.plain clearedReader waiting 16
      (messageAround Crypto.plain waitingKey 0 (Block.zero 32) text).length).Within (firstMessage text)
        (Contained 16 16) := by
  have checked := checked_firstMessage (List.replicate 16 0) (by decide)
  rw [← read_firstMessage] at checked
  have contained := (decrypt_contained_iff Crypto.plain clearedReader waiting checked.1 checked.2
    (verifies_waiting _ _ (read_firstMessage _))).1
  exact (contained.mpr (by decide)).1

/-- A ciphertext of one byte passes the MAC, and AES reads and writes sixteen. -/
theorem decrypt_not_contained :
    ¬ ∀ (crypto : Crypto) (stack : MessageReader) (ratchet : Ratchet (Block 32)) (memory : Memory RatchetBuffer)
        (inputLength maxPlaintextLength : Nat) (reader : CheckedReader Bytes),
      (ratchet.decryptMaxPlaintextLength (olmRatchet crypto stack)
        (memory.read (start .message) inputLength)).2 = some maxPlaintextLength →
      checkReader (olmRatchet crypto stack) (memory.read (start .message) inputLength) maxPlaintextLength =
        .ok reader →
      MacVerifies crypto stack ratchet reader →
      (decryptAt crypto stack ratchet maxPlaintextLength inputLength).Within memory
          (Contained reader.ciphertext.length maxPlaintextLength) ∧
        ∀ length, (decryptAt crypto stack ratchet maxPlaintextLength inputLength memory).value.2 = some length →
          length ≤ maxPlaintextLength := by
  intro contained
  have checked := checked_firstMessage [0] (by decide)
  rw [← read_firstMessage] at checked
  have verifies := verifies_waiting _ _ (read_firstMessage [0])
  have inside := (contained Crypto.plain clearedReader waiting (firstMessage [0]) _ _ _ checked.1 checked.2 verifies).1
  rw [decryptAt_within checked.2 (by unfold Contained; simp [covers_and, covers_inside])] at inside
  exact absurd ((allowsCbc_contained_iff 1).mp (inside verifies)) (by decide)

end Ratchet

end RubyOlm
