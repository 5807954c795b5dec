import RubyOlm.Crypto
import RubyOlm.Theory.KeyDerivation
import RubyOlm.Theory.Memory

/-!
# HMAC and HKDF in buffers

`_olm_crypto_hmac_sha256` and `_olm_crypto_hkdf_sha256` over pointers, on top of any SHA-256 that is fed in pieces. The
context, the key block and the result of a step are used again and again.
-/

namespace RubyOlm

open Prog

/-- `SHA256_CTX` and its functions. A context is initialised over whatever it holds, and left in some state. -/
structure Sha256 where
  Context : Type
  init : Context → Context
  update : Context → Bytes → Context
  final : Context → Context × Block 32

namespace Sha256

/-- What is hashed is all that a context was fed. -/
def Streams (sha : Sha256) (hash : Bytes → Block 32) : Prop :=
  ∀ (prior : sha.Context) (updates : List Bytes),
    (sha.final (updates.foldl sha.update (sha.init prior))).2 = hash updates.flatten

/-- Blocks of 64 bytes, and hashes of 32. -/
def function (hash : Bytes → Block 32) : HashFunction where
  hash text := (hash text).val
  blockLength := 64
  hashLength := 32
  length_hash _ := Block.length_val _

variable (sha : Sha256)

/-! ### HMAC -/

/-- `hmac_sha256_key`, with a context on the stack. -/
def hmacSha256Key (stack : sha.Context) (inputKey : Bytes) : Block 64 :=
  let hmacKey := (Block.zero 64).val
  if inputKey.length > 64 then
    let context := sha.init stack
    let context := sha.update context inputKey
    Block.load 64 (writeAt hmacKey 0 (sha.final context).2.val)
  else Block.load 64 (writeAt hmacKey 0 inputKey)

def hmacSha256Init (context : sha.Context) (hmacKey : Block 64) : sha.Context :=
  let iPad := hmacKey.val.map (· ^^^ 0x36)
  sha.update (sha.init context) iPad

/-- `hmac_sha256_final`, with `final_context` on the stack. -/
def hmacSha256Final (stack context : sha.Context) (hmacKey : Block 64) : sha.Context × Block 32 :=
  let oPad := hmacKey.val.map (· ^^^ 0x5C)
  let (context, hash) := sha.final context
  let finalContext := sha.init stack
  let finalContext := sha.update finalContext (oPad ++ hash.val)
  (context, (sha.final finalContext).2)

variable {B : Type} [DecidableEq B]

/-- `_olm_crypto_hmac_sha256`; `stack n` is what the `n`-th context on the stack holds. -/
def hmacSha256At (stack : Nat → sha.Context) (key : Pointer B) (keyLength : Nat) (input : Pointer B) (inputLength : Nat)
    (output : Pointer B) : Prog B Unit := do
  let hmacKey := sha.hmacSha256Key (stack 0) (← loadBytes key keyLength)
  let context := sha.hmacSha256Init (stack 1) hmacKey
  let context := sha.update context (← loadBytes input inputLength)
  let (_, mac) := sha.hmacSha256Final (stack 2) context hmacKey
  storeBytes output mac.val

/-! ### HKDF -/

def hkdfDefaultSalt : Block 32 := Block.zero 32

/-- The salt that is used; none is a null pointer. -/
def loadSalt : (salt : Option (Pointer B × Nat)) → Prog B Bytes
  | none => pure hkdfDefaultSalt.val
  | some (salt, saltLength) => loadBytes salt saltLength

/-- The `while` loop of the expansion, and the `memcpy` behind it. -/
def hkdfExpandAt (stack : Nat → sha.Context) (info : Pointer B) (infoLength : Nat) (hmacKey : Block 64)
    (bytesRemaining : Nat) (iteration : UInt8) (context : sha.Context) (stepResult : Block 32) (output : Pointer B) :
    Prog B Unit :=
  if bytesRemaining > 32 then do
    storeBytes output stepResult.val
    let iteration := iteration + 1
    let context := sha.hmacSha256Init context hmacKey
    let context := sha.update context stepResult.val
    let context := sha.update context (← loadBytes info infoLength)
    let context := sha.update context [iteration]
    let (context, stepResult) := sha.hmacSha256Final (stack (4 + iteration.toNat)) context hmacKey
    hkdfExpandAt stack info infoLength hmacKey (bytesRemaining - 32) iteration context stepResult (output + 32)
  else storeBytes output (stepResult.val.take bytesRemaining)
termination_by bytesRemaining

/-- `_olm_crypto_hkdf_sha256`. -/
def hkdfSha256At (stack : Nat → sha.Context) (input : Pointer B) (inputLength : Nat) (salt : Option (Pointer B × Nat))
    (info : Pointer B) (infoLength : Nat) (output : Pointer B) (outputLength : Nat) : Prog B Unit := do
  let iteration : UInt8 := 1
  let hmacKey := sha.hmacSha256Key (stack 1) (← loadSalt salt)
  let context := sha.hmacSha256Init (stack 0) hmacKey
  let context := sha.update context (← loadBytes input inputLength)
  let (context, stepResult) := sha.hmacSha256Final (stack 2) context hmacKey
  let hmacKey := sha.hmacSha256Key (stack 3) stepResult.val
  let context := sha.hmacSha256Init context hmacKey
  let context := sha.update context (← loadBytes info infoLength)
  let context := sha.update context [iteration]
  let (context, stepResult) := sha.hmacSha256Final (stack (4 + iteration.toNat)) context hmacKey
  sha.hkdfExpandAt stack info infoLength hmacKey outputLength iteration context stepResult output

/-! ### Against the standards -/

section Standards

variable {sha} {hash : Bytes → Block 32}

theorem load_writeAt_zero {bytes : Bytes} (fits : bytes.length ≤ 64) :
    (Block.load 64 (writeAt (Block.zero 64).val 0 bytes)).val = bytes ++ List.replicate (64 - bytes.length) 0 := by
  have written : writeAt (Block.zero 64).val 0 bytes = bytes ++ List.replicate (64 - bytes.length) 0 := by
    rw [writeAt, List.take_zero, List.nil_append, Nat.zero_add, Block.zero, List.drop_replicate]
  have length : (bytes ++ List.replicate (64 - bytes.length) (0 : UInt8)).length = 64 := by
    rw [List.length_append, List.length_replicate]
    omega
  rw [written]
  exact congrArg Subtype.val (Block.load_val ⟨_, length⟩)

theorem hmacSha256Key_val (streams : sha.Streams hash) (stack : sha.Context) (key : Bytes) :
    (sha.hmacSha256Key stack key).val = (function hash).keyBlock key := by
  have expected : (function hash).keyBlock key =
      (if key.length > 64 then (hash key).val else key) ++
        List.replicate (64 - (if key.length > 64 then (hash key).val else key).length) 0 := rfl
  rw [expected, hmacSha256Key]
  by_cases long : key.length > 64
  · have hashed := streams stack [key]
    rw [List.foldl_cons, List.foldl_nil, List.flatten_singleton] at hashed
    simp only [if_pos long, hashed]
    exact load_writeAt_zero (by rw [Block.length_val]; decide)
  · simp only [if_neg long]
    exact load_writeAt_zero (Nat.le_of_not_gt long)

/-- However the text was cut up to be fed to the context. -/
theorem hmacSha256Final_val (streams : sha.Streams hash) (stack prior : sha.Context) {hmacKey : Block 64} {key : Bytes}
    (block : hmacKey.val = (function hash).keyBlock key) (updates : List Bytes) :
    (sha.hmacSha256Final stack (updates.foldl sha.update (sha.hmacSha256Init prior hmacKey)) hmacKey).2.val =
      (function hash).hmac key updates.flatten := by
  have inner := streams prior (hmacKey.val.map (· ^^^ 0x36) :: updates)
  rw [List.foldl_cons, List.flatten_cons] at inner
  have outer (text : Bytes) := streams stack [text]
  simp only [List.foldl_cons, List.foldl_nil, List.flatten_singleton] at outer
  rw [hmacSha256Final, hmacSha256Init]
  dsimp only
  rw [inner, outer, block]
  rfl

/-- Wherever key and input lie, and if the output is put over one of them. -/
theorem hmacSha256At_memory (streams : sha.Streams hash) (stack : Nat → sha.Context) (key : Pointer B) (keyLength : Nat)
    (input : Pointer B) (inputLength : Nat) (output : Pointer B) (memory : Memory B) :
    (sha.hmacSha256At stack key keyLength input inputLength output memory).memory =
      memory.write output ((function hash).hmac (memory.read key keyLength) (memory.read input inputLength)) := by
  have mac := hmacSha256Final_val streams (stack 2) (stack 1) (hmacSha256Key_val streams (stack 0)
    (memory.read key keyLength)) [memory.read input inputLength]
  rw [List.foldl_cons, List.foldl_nil, List.flatten_singleton] at mac
  simp only [hmacSha256At, memory_bind, value_loadBytes, memory_loadBytes, memory_storeBytes, mac]

theorem hmacSha256At_writes (stack : Nat → sha.Context) (key : Pointer B) (keyLength : Nat) (input : Pointer B)
    (inputLength : Nat) (output : Pointer B) (memory : Memory B) :
    (sha.hmacSha256At stack key keyLength input inputLength output).Writes memory output 32 := by
  apply writes_of_covers
  intro P reads
  simp only [hmacSha256At, within_bind, within_loadBytes, within_storeBytes, Block.length_val, covers_read reads, true_and]

/-- With `T(n)` in hand, and as many blocks left as a byte can count. -/
theorem hkdfExpandAt_memory (streams : sha.Streams hash) (stack : Nat → sha.Context) (info : Pointer B) (infoLength : Nat)
    {hmacKey : Block 64} {key : Bytes} (block : hmacKey.val = (function hash).keyBlock key) (bytesRemaining n : Nat)
    (context : sha.Context) {stepResult : Block 32} (output : Pointer B) (memory : Memory B)
    (step : stepResult.val = (function hash).expandBlock key (memory.read info infoLength) (n + 1))
    (apart : Memory.Apart output bytesRemaining info infoLength) :
    (sha.hkdfExpandAt stack info infoLength hmacKey bytesRemaining (UInt8.ofNat (n + 1)) context stepResult output
        memory).memory =
      memory.write output (((function hash).expandBlocks key (memory.read info infoLength) (n + 1)
        ((bytesRemaining - 1) / 32 + 1)).take bytesRemaining) := by
  induction bytesRemaining using Nat.strong_induction_on generalizing n context stepResult output memory with
  | h bytesRemaining ih =>
    rw [hkdfExpandAt]
    split
    · rename_i more
      obtain ⟨text, htext⟩ : ∃ text, memory.read info infoLength = text := ⟨_, rfl⟩
      have unread : (memory.write output stepResult.val).read info infoLength = text := by
        rw [← htext]
        apply Memory.read_write_apart
        intro same
        rw [Block.length_val]
        have := apart same
        omega
      have next : UInt8.ofNat (n + 1) + 1 = UInt8.ofNat (n + 2) := by
        rw [UInt8.ofNat_add (n + 1) 1]
        rfl
      have blocks : (bytesRemaining - 1) / 32 + 1 = (bytesRemaining - 32 - 1) / 32 + 1 + 1 := by omega
      have taken : ((function hash).expandBlocks key text (n + 1) ((bytesRemaining - 32 - 1) / 32 + 1 + 1)).take
          bytesRemaining = (function hash).expandBlock key text (n + 1) ++
            ((function hash).expandBlocks key text (n + 2) ((bytesRemaining - 32 - 1) / 32 + 1)).take
              (bytesRemaining - 32) :=
        (function hash).take_expandBlocks_succ key text n _ (Nat.le_of_lt more)
      have rest : Memory.Apart (output + 32) (bytesRemaining - 32) info infoLength := by
        have behind := apart.sub (Nat.le_of_eq (Nat.add_sub_cancel' (Nat.le_of_lt more))) (Nat.le_of_eq (Nat.zero_add _))
        rwa [Pointer.add_zero] at behind
      have mac := hmacSha256Final_val streams (stack (4 + (UInt8.ofNat (n + 2)).toNat)) context block
        [stepResult.val, text, [UInt8.ofNat (n + 2)]]
      simp only [memory_bind, memory_storeBytes, value_loadBytes, memory_loadBytes, unread, next]
      rw [htext] at step ⊢
      rw [ih (bytesRemaining - 32) (by omega) (n + 1) _ (output + 32) _ ?step rest, unread, blocks, taken, ← step,
        Memory.write_append, Block.length_val]
      case step =>
        rw [unread, HashFunction.expandBlock, ← step]
        refine mac.trans (congrArg _ ?_)
        simp only [List.flatten_cons, List.flatten_nil, List.append_nil, List.append_assoc]
    · rename_i last
      have one : (bytesRemaining - 1) / 32 = 0 := by omega
      rw [memory_storeBytes, step, one, HashFunction.expandBlocks, HashFunction.expandBlocks, List.append_nil]

theorem hkdfExpandAt_within (stack : Nat → sha.Context) (info : Pointer B) (infoLength : Nat) (hmacKey : Block 64)
    (bytesRemaining : Nat) (iteration : UInt8) (context : sha.Context) (stepResult : Block 32) (output : Pointer B)
    (memory : Memory B) {P : Access B → Prop} :
    (sha.hkdfExpandAt stack info infoLength hmacKey bytesRemaining iteration context stepResult output).Within memory P ↔
      (bytesRemaining > 32 → Covers P .read info infoLength) ∧ Covers P .write output bytesRemaining := by
  induction bytesRemaining using Nat.strong_induction_on generalizing iteration context stepResult output memory with
  | h bytesRemaining ih =>
    rw [hkdfExpandAt]
    split
    · rename_i more
      have parts : Covers P .write output bytesRemaining ↔
          Covers P .write output 32 ∧ Covers P .write (output + 32) (bytesRemaining - 32) := by
        rw [← covers_add, Nat.add_sub_cancel' (Nat.le_of_lt more)]
      simp only [within_bind, within_storeBytes, within_loadBytes, Block.length_val, ih (bytesRemaining - 32) (by omega),
        parts]
      constructor
      · rintro ⟨first, read, -, rest⟩
        exact ⟨fun _ => read, first, rest⟩
      · rintro ⟨read, first, rest⟩
        exact ⟨first, read more, fun _ => read more, rest⟩
    · rename_i last
      rw [within_storeBytes, List.length_take, Block.length_val, Nat.min_eq_left (Nat.le_of_not_gt last)]
      exact ⟨fun write => ⟨fun more => absurd more last, write⟩, fun both => both.2⟩

/-- What is written goes over nothing that is still to be read, if the info is not under the output. -/
theorem hkdfSha256At_memory (streams : sha.Streams hash) (stack : Nat → sha.Context) (input : Pointer B)
    (inputLength : Nat) (salt : Option (Pointer B × Nat)) (info : Pointer B) (infoLength : Nat) (output : Pointer B)
    (outputLength : Nat) (memory : Memory B) (apart : Memory.Apart output outputLength info infoLength) :
    (sha.hkdfSha256At stack input inputLength salt info infoLength output outputLength memory).memory =
      memory.write output ((function hash).derive (memory.read input inputLength)
        (salt.map fun salt => memory.read salt.1 salt.2) (memory.read info infoLength) outputLength) := by
  obtain ⟨saltBytes, hsalt⟩ : ∃ saltBytes,
      (salt.map fun salt => memory.read salt.1 salt.2).getD (List.replicate 32 0) = saltBytes := ⟨_, rfl⟩
  have loaded : (loadSalt salt memory).value = saltBytes ∧ (loadSalt salt memory).memory = memory := by
    rw [← hsalt]
    cases salt <;> exact ⟨rfl, rfl⟩
  -- extraction, and the first block of the expansion
  have extracted := hmacSha256Final_val streams (stack 2) (stack 0) (hmacSha256Key_val streams (stack 1) saltBytes)
    [memory.read input inputLength]
  rw [List.foldl_cons, List.foldl_nil, List.flatten_singleton] at extracted
  obtain ⟨key, hkey⟩ : ∃ key, (function hash).hmac saltBytes (memory.read input inputLength) = key := ⟨_, rfl⟩
  rw [hkey] at extracted
  have block := hmacSha256Key_val streams (stack 3) key
  have first (context : sha.Context) := hmacSha256Final_val streams (stack (4 + (1 : UInt8).toNat)) context block
    [memory.read info infoLength, [1]]
  have derived : (function hash).derive (memory.read input inputLength)
      (salt.map fun salt => memory.read salt.1 salt.2) (memory.read info infoLength) outputLength =
      ((function hash).expandBlocks key (memory.read info infoLength) 1 ((outputLength + 31) / 32)).take outputLength := by
    rw [← hkey, ← hsalt]
    rfl
  have counted : ((function hash).expandBlocks key (memory.read info infoLength) 1 ((outputLength + 31) / 32)).take
      outputLength = ((function hash).expandBlocks key (memory.read info infoLength) 1
        ((outputLength - 1) / 32 + 1)).take outputLength := by
    cases outputLength with
    | zero => rw [List.take_zero, List.take_zero]
    | succ before =>
      have count : (before + 1 + 31) / 32 = (before + 1 - 1) / 32 + 1 := by omega
      rw [count]
  rw [hkdfSha256At]
  simp only [memory_bind, loaded.1, loaded.2, value_loadBytes, memory_loadBytes, extracted]
  rw [derived, counted]
  exact hkdfExpandAt_memory streams stack info infoLength block outputLength 0 _ output memory
    ((first _).trans (by simp [HashFunction.expandBlock])) apart

theorem hkdfSha256At_writes (stack : Nat → sha.Context) (input : Pointer B) (inputLength : Nat)
    (salt : Option (Pointer B × Nat)) (info : Pointer B) (infoLength : Nat) (output : Pointer B) (outputLength : Nat)
    (memory : Memory B) :
    (sha.hkdfSha256At stack input inputLength salt info infoLength output outputLength).Writes memory output
      outputLength := by
  apply writes_of_covers
  intro P reads
  have salted : (loadSalt salt).Within memory P := by
    cases salt with
    | none => exact within_pure _ _
    | some place => exact (within_loadBytes ..).mpr (covers_read reads)
  simp only [hkdfSha256At, within_bind, within_loadBytes, hkdfExpandAt_within, salted, covers_read reads, implies_true,
    true_and]

/-- For keys, inputs, salts and infos of every length, wherever they lie: what is written is the HMAC of RFC 2104, and
the first bytes of what RFC 5869 derives, and not a byte more. The counter of blocks is a byte in both. -/
theorem derivation_standard (streams : sha.Streams hash) (stack : Nat → sha.Context) (memory : Memory B) :
    (∀ (key : Pointer B) (keyLength : Nat) (input : Pointer B) (inputLength : Nat) (output : Pointer B),
      let hmac := sha.hmacSha256At stack key keyLength input inputLength output
      (hmac memory).memory = memory.write output
          ((function hash).hmac (memory.read key keyLength) (memory.read input inputLength)) ∧
        hmac.Writes memory output 32) ∧
    ∀ (input : Pointer B) (inputLength : Nat) (salt : Option (Pointer B × Nat)) (info : Pointer B) (infoLength : Nat)
      (output : Pointer B) (outputLength : Nat), Memory.Apart output outputLength info infoLength →
      let hkdf := sha.hkdfSha256At stack input inputLength salt info infoLength output outputLength
      let derived := (function hash).derive (memory.read input inputLength)
        (salt.map fun salt => memory.read salt.1 salt.2) (memory.read info infoLength) outputLength
      derived.length = outputLength ∧ (hkdf memory).memory = memory.write output derived ∧
        hkdf.Writes memory output outputLength := by
  refine ⟨?hmac, ?hkdf⟩
  case hmac =>
    intro key keyLength input inputLength output
    exact ⟨hmacSha256At_memory streams stack key keyLength input inputLength output memory,
      hmacSha256At_writes stack key keyLength input inputLength output memory⟩
  case hkdf =>
    intro input inputLength salt info infoLength output outputLength apart
    exact ⟨HashFunction.length_expand _ _ _ _ (by decide : 0 < 32),
      hkdfSha256At_memory streams stack input inputLength salt info infoLength output outputLength memory apart,
      hkdfSha256At_writes stack input inputLength salt info infoLength output outputLength memory⟩

end Standards

/-! ### A plain instance -/

/-- A context is all that it was fed, of which the first bytes are the hash. -/
def plain : Sha256 where
  Context := Bytes
  init _ := []
  update context input := context ++ input
  final context := (context, Block.load 32 context)

theorem foldl_update_plain (context : Bytes) (updates : List Bytes) :
    updates.foldl plain.update context = context ++ updates.flatten := by
  induction updates generalizing context with
  | nil => exact (List.append_nil context).symm
  | cons input updates ih => exact (ih (context ++ input)).trans (by rw [List.flatten_cons, List.append_assoc])

theorem plain_streams : plain.Streams (Block.load 32) := fun prior updates =>
  congrArg (Block.load 32) (foldl_update_plain (plain.init prior) updates)

/-- Forty bytes from five, with an info of three and no salt. -/
theorem derivation_standard_forty :
    let memory : Memory Bool := fun _ => 1
    let derived := (function (Block.load 32)).derive (List.replicate 5 1) none (List.replicate 3 1) 40
    derived.length = 40 ∧
      (plain.hkdfSha256At (fun _ => []) (Pointer.start true) 5 none (Pointer.start true) 3 (Pointer.start false) 40
        memory).memory = memory.write (Pointer.start false) derived := by
  obtain ⟨-, hkdf⟩ := derivation_standard plain_streams (fun _ => []) (fun _ : Pointer Bool => 1)
  obtain ⟨length, written, -⟩ := hkdf (Pointer.start true) 5 none (Pointer.start true) 3 (Pointer.start false) 40
    (fun same => nomatch same)
  exact ⟨length, written⟩

end Sha256

/-! ### The functions of the other modules -/

/-- `Kdf`, as the standards define it over a hash function. -/
def Kdf.standard (hash : Bytes → Block 32) : Kdf where
  hmac key input := ⟨(Sha256.function hash).hmac key input, HashFunction.length_hmac _ _ _⟩
  hkdf input salt info length := ⟨(Sha256.function hash).derive input salt info length,
    HashFunction.length_expand _ _ _ _ (by decide : 0 < 32)⟩

/-- It is what is left at the output. -/
theorem Kdf.standard_written {sha : Sha256} {hash : Bytes → Block 32} (streams : sha.Streams hash)
    (stack : Nat → sha.Context) {B : Type} [DecidableEq B] (memory : Memory B) (input : Pointer B) (inputLength : Nat)
    (output : Pointer B) :
    (∀ (key : Pointer B) (keyLength : Nat),
      (sha.hmacSha256At stack key keyLength input inputLength output memory).memory.read output 32 =
        ((Kdf.standard hash).hmac (memory.read key keyLength) (memory.read input inputLength)).val) ∧
    ∀ (salt : Option (Pointer B × Nat)) (info : Pointer B) (infoLength outputLength : Nat),
      Memory.Apart output outputLength info infoLength →
      (sha.hkdfSha256At stack input inputLength salt info infoLength output outputLength memory).memory.read output
          outputLength =
        ((Kdf.standard hash).hkdf (memory.read input inputLength) (salt.map fun salt => memory.read salt.1 salt.2)
          (memory.read info infoLength) outputLength).val := by
  refine ⟨fun key keyLength => ?_, fun salt info infoLength outputLength apart => ?_⟩
  · rw [Sha256.hmacSha256At_memory streams]
    exact Memory.read_write_of_length _ _ _ (HashFunction.length_hmac _ _ _)
  · rw [Sha256.hkdfSha256At_memory streams _ _ _ _ _ _ _ _ _ apart]
    exact Memory.read_write_of_length _ _ _ (HashFunction.length_expand _ _ _ _ (by decide : 0 < 32))

end RubyOlm
