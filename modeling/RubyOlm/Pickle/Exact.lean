import RubyOlm.Pickle.Objects
import RubyOlm.Theory.Delimited

/-!
# What fills a pickle

The words that the readers of pickles read: fields of a fixed length, lists of as many elements as the count in front
of them says, and bodies laid out as the version in front of them says.
-/

namespace RubyOlm

namespace Pickle

/-- Four bytes, and what the number in them announces. -/
def announced (words : UInt32 → Language UInt8) : Language UInt8 :=
  {body | ∃ number rest, number.length = 4 ∧ rest ∈ words (loadBigEndian number) ∧ number ++ rest = body}

/-- A count, and so many elements. -/
def counted (element : Language UInt8) : Language UInt8 := announced fun count => element ^ count.toNat

/-! ### Fields -/

theorem bytes_fills (n : Nat) : (bytes n).Fills (ofLength UInt8 n) where
  reads {word} length := ⟨⟨word, length⟩, unpickleBytes_append ⟨word, length⟩⟩
  stops {rest} none old := by
    have short : rest.length < n := by
      by_contra long
      exact none (rest.take n) (List.length_take_of_le (Nat.le_of_not_lt long)) (List.take_prefix _ _)
    simp only [bytes, unpickleBytes, if_pos short]

theorem publicKey_fills : publicKey.Fills (ofLength UInt8 32) := bytes_fills 32

theorem sharedKey_fills : sharedKey.Fills (ofLength UInt8 32) := bytes_fills 32

theorem uint32_read_append {number : Bytes} (four : number.length = 4) (tail : Bytes) (old : UInt32) :
    uint32.read (number ++ tail) old = (tail, loadBigEndian number) := by
  simp only [uint32, unpickleUint32]
  rw [if_neg (by rw [List.length_append]; omega), ← four, List.drop_left, List.take_left]

theorem uint32_fills : uint32.Fills (ofLength UInt8 4) where
  reads {word} four := ⟨loadBigEndian word, fun old tail => uint32_read_append four tail old⟩
  stops {rest} none old := by
    have short : rest.length < 4 := by
      by_contra long
      exact none (rest.take 4) (List.length_take_of_le (Nat.le_of_not_lt long)) (List.take_prefix _ _)
    simp only [uint32, unpickleUint32, if_pos short]

theorem bool_fills : bool.Fills (ofLength UInt8 1) where
  reads {word} length := by
    obtain ⟨byte, rfl⟩ := List.length_eq_one_iff.mp length
    exact ⟨byte != 0, fun old tail => rfl⟩
  stops {rest} none old := by
    rcases rest with _ | ⟨byte, rest⟩
    · rfl
    · exact absurd ⟨rest, rfl⟩ (none [byte] rfl)

theorem ofLength_mul (m n : Nat) : ofLength UInt8 m * ofLength UInt8 n = ofLength UInt8 (m + n) := by
  ext word
  rw [Language.mem_mul]
  constructor
  · rintro ⟨first, firstLength, second, secondLength, rfl⟩
    exact (List.length_append).trans (congrArg₂ (· + ·) firstLength secondLength)
  · intro length
    have length : word.length = m + n := length
    exact ⟨word.take m, List.length_take_of_le (by omega), word.drop m,
      by rw [mem_ofLength, List.length_drop]; omega, List.take_append_drop _ _⟩

theorem curve25519KeyPair_fills : curve25519KeyPair.Fills (ofLength UInt8 64) := by
  have pair := ((bytes_fills 32).pair (bytes_fills 32)).via
    (fun value : Curve25519KeyPair => (value.publicKey, value.privateKey))
    fun (publicKey, privateKey) => { publicKey, privateKey }
  rw [ofLength_mul] at pair
  exact pair.of_read rfl

theorem ed25519KeyPair_fills : ed25519KeyPair.Fills (ofLength UInt8 96) := by
  have pair := ((bytes_fills 32).pair (bytes_fills 64)).via
    (fun value : Ed25519KeyPair => (value.publicKey, value.privateKey))
    fun (publicKey, privateKey) => { publicKey, privateKey }
  rw [ofLength_mul] at pair
  exact pair.of_read rfl

theorem identityKeys_fills : identityKeys.Fills (ofLength UInt8 160) := by
  have pair := (ed25519KeyPair_fills.pair curve25519KeyPair_fills).via
    (fun value : IdentityKeys => (value.ed25519Key, value.curve25519Key))
    fun (ed25519Key, curve25519Key) => { ed25519Key, curve25519Key }
  rw [ofLength_mul] at pair
  apply pair.of_read
  funext rest value
  simp only [identityKeys, Codec.pair, Codec.via]

theorem oneTimeKey_fills : oneTimeKey.Fills (ofLength UInt8 69) := by
  have triple := (uint32_fills.pair (bool_fills.pair curve25519KeyPair_fills)).via
    (fun value : OneTimeKey => (value.id, value.published, value.key))
    fun (id, published, key) => { id, published, key }
  rw [ofLength_mul, ofLength_mul] at triple
  refine triple.of_read (funext fun rest => funext fun old => ?_)
  simp only [oneTimeKey, Codec.via, Codec.pair]

theorem keyed_fills {RatchetKey : Type} {ratchetKey : Codec UInt8 RatchetKey} {length : Nat}
    (fills : ratchetKey.Fills (ofLength UInt8 length)) : (keyed ratchetKey).Fills (ofLength UInt8 (length + 36)) := by
  have fills := fills.pair (sharedKey_fills.pair uint32_fills)
  rwa [ofLength_mul, ofLength_mul] at fills

theorem senderChain_fills : senderChain.Fills (ofLength UInt8 100) := (keyed_fills curve25519KeyPair_fills).via _ _

theorem receiverChain_fills : receiverChain.Fills (ofLength UInt8 68) := (keyed_fills publicKey_fills).via _ _

theorem skippedMessageKey_fills : skippedMessageKey.Fills (ofLength UInt8 68) := (keyed_fills publicKey_fills).via _ _

/-! ### Numbers that announce -/

theorem announced_delimited {β : Type} {next : UInt32 → Bytes → Bytes × β} {words : UInt32 → Language UInt8}
    (delimited : ∀ number, Delimited (next number) (words number)) (old : UInt32) :
    Delimited (fun rest => let (rest, number) := uint32.read rest old; next number rest) (announced words) := by
  have both := (uint32_fills.delimited old).bind delimited
  have read (number : Bytes) (four : number.length = 4) : (uint32.read number old).2 = loadBigEndian number := by
    have alone := uint32_read_append four [] old
    rw [List.append_nil] at alone
    rw [alone]
  have same : announced words = {body | ∃ number ∈ ofLength UInt8 4, ∃ tail ∈ words (uint32.read number old).2,
      number ++ tail = body} := by
    ext body
    constructor
    · rintro ⟨number, rest, four, mem, rfl⟩
      refine ⟨number, four, rest, ?_, rfl⟩
      rwa [read number four]
    · rintro ⟨number, four, rest, mem, rfl⟩
      refine ⟨number, rest, four, ?_, rfl⟩
      rwa [← read number four]
  rw [same]
  exact both

/-! ### Lists -/

section Lists

variable {α : Type} {maxSize : Nat} {element : Codec UInt8 α} {words : Language UInt8}

/-- So many elements, read into blank ones. -/
def readElements (element : Codec UInt8 α) (blank : α) : (count : Nat) → (rest : Bytes) → Bytes × List α
  | 0, rest => (rest, [])
  | count + 1, rest =>
    let (rest, value) := element.read rest blank
    let (rest, values) := readElements element blank count rest
    (rest, value :: values)

/-- The elements of a list, with nothing in front of them. -/
def readList (element : Codec UInt8 α) (blank : α) (rest : Bytes) : Bytes × List α :=
  let (rest, count) := uint32.read rest 0
  readElements element blank count.toNat rest

theorem readElements_append (fills : element.Fills words) (blank : α) {count : Nat} {word : Bytes}
    (mem : word ∈ words ^ count) (tail : Bytes) :
    readElements element blank count (word ++ tail) = (tail, (readElements element blank count word).2) := by
  induction count generalizing word with
  | zero =>
    rw [pow_zero, Language.mem_one] at mem
    rw [mem]
    rfl
  | succ count ih =>
    rw [pow_succ', Language.mem_mul] at mem
    obtain ⟨first, first_mem, others, others_mem, rfl⟩ := mem
    simp only [readElements, List.append_assoc, fills.read_eq first_mem _ blank blank, ih others_mem]

def pushBack (list : OlmList α maxSize) (value : α) : OlmList α maxSize := list.insert list.size value

variable (element) in
/-- One turn, also when there is no room. -/
theorem unpickleElements_turn (slots : 0 < maxSize) (list : OlmList α maxSize) (count : Nat) {rest : Bytes}
    (more : rest ≠ []) : ∃ slot, unpickleElements element (count + 1) rest list =
      unpickleElements element count (element.read rest slot).1 (pushBack list (element.read rest slot).2) := by
  have inside : (list.makeRoom list.size).2 < maxSize := by
    have := list.size_le
    unfold OlmList.makeRoom
    split
    · assumption
    · rw [if_pos rfl]
      show list.size - 1 < maxSize
      omega
  refine ⟨(list.makeRoom list.size).1.data[(list.makeRoom list.size).2], ?_⟩
  rw [unpickleElements, if_neg more]
  dsimp only
  rw [Vector.getElem?_eq_getElem inside]
  rfl

theorem unpickleElements_nil (count : Nat) (list : OlmList α maxSize) :
    unpickleElements element count [] list = ([], list) := by
  cases count <;> simp [unpickleElements]

/-- The elements that are there are added at the end, one by one. -/
theorem unpickleElements_eq (fills : element.Fills words) (slots : 0 < maxSize) (some_byte : [] ∉ words) (blank : α)
    {count : Nat} {word : Bytes} (mem : word ∈ words ^ count) (tail : Bytes) (list : OlmList α maxSize) :
    unpickleElements element count (word ++ tail) list =
      (tail, (readElements element blank count word).2.foldl pushBack list) := by
  induction count generalizing word list with
  | zero =>
    rw [pow_zero, Language.mem_one] at mem
    rw [mem]
    rfl
  | succ count ih =>
    rw [pow_succ', Language.mem_mul] at mem
    obtain ⟨first, first_mem, others, others_mem, rfl⟩ := mem
    have more : first ++ others ++ tail ≠ [] := by
      intro none
      rw [List.append_assoc, List.append_eq_nil_iff] at none
      exact some_byte (none.1 ▸ first_mem)
    obtain ⟨slot, turn⟩ := unpickleElements_turn element slots list count more
    rw [List.append_assoc, fills.read_eq first_mem _ slot blank] at turn
    rw [List.append_assoc, turn, ih others_mem]
    simp only [readElements, fills.read_eq first_mem others blank blank, List.foldl_cons]

theorem unpickleElements_delimited (fills : element.Fills words) (slots : 0 < maxSize) (some_byte : [] ∉ words)
    (blank : α) (count : Nat) (list : OlmList α maxSize) :
    Delimited (fun rest => unpickleElements element count rest list) (words ^ count) where
  reads mem := ⟨_, fun tail => unpickleElements_eq fills slots some_byte blank mem tail list⟩
  stops {rest} none := by
    induction count generalizing rest list with
    | zero => exact absurd List.nil_prefix (none [] (Language.nil_mem_one))
    | succ count ih =>
      by_cases empty : rest = []
      · rw [empty, unpickleElements_nil]
      · obtain ⟨slot, turn⟩ := unpickleElements_turn element slots list count empty
        rw [turn]
        by_cases found : ∃ word ∈ words, word <+: rest
        · obtain ⟨word, mem, left, rfl⟩ := found
          rw [fills.read_eq mem left slot blank]
          refine ih _ fun others others_mem front => ?_
          refine none (word ++ others) ?_ ((List.prefix_append_right_inj word).mpr front)
          rw [pow_succ']
          exact Language.append_mem_mul mem others_mem
        · rw [fills.stops (fun word mem front => found ⟨word, mem, front⟩), unpickleElements_nil]

theorem list_delimited (fills : element.Fills words) (slots : 0 < maxSize) (some_byte : [] ∉ words) (blank : α)
    (old : OlmList α maxSize) : Delimited ((list element).read · old) (counted words) :=
  announced_delimited (fun count => unpickleElements_delimited fills slots some_byte blank count.toNat old) 0

theorem readList_append (fills : element.Fills words) (blank : α) {word : Bytes} (mem : word ∈ counted words)
    (tail : Bytes) : readList element blank (word ++ tail) = (tail, (readList element blank word).2) := by
  obtain ⟨number, others, four, others_mem, rfl⟩ := mem
  simp only [readList, List.append_assoc, uint32_read_append four, readElements_append fills blank others_mem]

/-- A list is read by adding what is there to what was. -/
theorem list_read_append (fills : element.Fills words) (slots : 0 < maxSize) (some_byte : [] ∉ words) (blank : α)
    {word : Bytes} (mem : word ∈ counted words) (tail : Bytes) (old : OlmList α maxSize) :
    (list element).read (word ++ tail) old = (tail, (readList element blank word).2.foldl pushBack old) := by
  obtain ⟨number, others, four, others_mem, rfl⟩ := mem
  simp only [list, readList, List.append_assoc, uint32_read_append four,
    unpickleElements_eq fills slots some_byte blank others_mem]

end Lists

/-! ### What the lists of the objects are made of -/

theorem some_byte {length : Nat} (positive : 0 < length) : [] ∉ ofLength UInt8 length := by
  intro empty
  exact Nat.ne_of_lt positive empty

def blankKeyPair : Curve25519KeyPair := ⟨Block.zero 32, Block.zero 32⟩

def blankOneTimeKey : OneTimeKey := ⟨0, false, blankKeyPair⟩

def blankSenderChain : SenderChain (Block 32) := ⟨blankKeyPair, 0, Block.zero 32⟩

def blankReceiverChain : ReceiverChain (Block 32) := ⟨Block.zero 32, 0, Block.zero 32⟩

def blankSkippedMessageKey : SkippedMessageKey (Block 32) := ⟨Block.zero 32, 0, Block.zero 32⟩

theorem oneTimeKeys_delimited (old : OlmList OneTimeKey maxOneTimeKeys) :
    Delimited ((list oneTimeKey).read · old) (counted (ofLength UInt8 69)) :=
  list_delimited oneTimeKey_fills (by decide) (some_byte (by decide)) blankOneTimeKey old

theorem senderChains_delimited (old : OlmList (SenderChain (Block 32)) 1) :
    Delimited ((list senderChain).read · old) (counted (ofLength UInt8 100)) :=
  list_delimited senderChain_fills (by decide) (some_byte (by decide)) blankSenderChain old

theorem receiverChains_delimited (old : OlmList (ReceiverChain (Block 32)) maxReceiverChains) :
    Delimited ((list receiverChain).read · old) (counted (ofLength UInt8 68)) :=
  list_delimited receiverChain_fills (by decide) (some_byte (by decide)) blankReceiverChain old

theorem skippedMessageKeys_delimited (old : OlmList (SkippedMessageKey (Block 32)) maxSkippedMessageKeys) :
    Delimited ((list skippedMessageKey).read · old) (counted (ofLength UInt8 68)) :=
  list_delimited skippedMessageKey_fills (by decide) (some_byte (by decide)) blankSkippedMessageKey old

end Pickle

open Pickle

/-! ### Bodies -/

namespace Account

/-- The identity keys, the one-time keys and the next id. -/
def fields : Language UInt8 := announced fun version =>
  if version = 2 then ofLength UInt8 160 * counted (ofLength UInt8 69) * ofLength UInt8 4 else 0

/-- What the reader does behind the version. -/
def unpickleVersion (value : Account) (version : UInt32) (rest : Bytes) : Bytes × Account :=
  if version = pickleVersion then
    let (rest, identityKeys) := Pickle.identityKeys.read rest value.identityKeys
    let (rest, oneTimeKeys) := (list oneTimeKey).read rest value.oneTimeKeys
    let (rest, nextOneTimeKeyId) := uint32.read rest value.nextOneTimeKeyId
    (rest, { value with identityKeys, oneTimeKeys, nextOneTimeKeyId })
  else if version = 1 then ([], { value with lastError := .badLegacyAccountPickle })
  else ([], { value with lastError := .unknownPickleVersion })

theorem unpickleBody_delimited (value : Account) : Delimited (codec.read · value) fields := by
  have versions (version : UInt32) : Delimited (unpickleVersion value version)
      (if version = 2 then ofLength UInt8 160 * counted (ofLength UInt8 69) * ofLength UInt8 4 else 0) := by
    by_cases known : version = 2
    · rw [if_pos known, mul_assoc]
      have whole := (identityKeys_fills.delimited value.identityKeys).seq fun identityKeys =>
        (oneTimeKeys_delimited value.oneTimeKeys).seq fun oneTimeKeys =>
          (uint32_fills.delimited value.nextOneTimeKeyId).map fun nextOneTimeKeyId =>
            { value with identityKeys, oneTimeKeys, nextOneTimeKeyId }
      refine whole.of_read (funext fun rest => ?_)
      simp only [unpickleVersion, known, pickleVersion, if_true]
    · rw [if_neg known]
      refine Delimited.of_failing fun rest => ?_
      unfold unpickleVersion
      rw [if_neg (by exact known)]
      split <;> rfl
  exact announced_delimited versions 0

end Account

/-- The root key and the three lists. -/
def ratchetFields : Language UInt8 :=
  ofLength UInt8 32 * counted (ofLength UInt8 100) * counted (ofLength UInt8 68) * counted (ofLength UInt8 68)

namespace Ratchet

theorem unpickle_delimited (value : Ratchet (Block 32)) :
    Delimited (unpickle · value false) ratchetFields ∧
      Delimited (unpickle · value true) (ratchetFields * ofLength UInt8 4) := by
  unfold ratchetFields
  constructor
  · rw [mul_assoc, mul_assoc]
    have whole := (sharedKey_fills.delimited value.rootKey).seq fun rootKey =>
      (senderChains_delimited value.senderChain).seq fun senderChain =>
        (receiverChains_delimited value.receiverChains).seq fun receiverChains =>
          (skippedMessageKeys_delimited value.skippedMessageKeys).map fun skippedMessageKeys =>
            { value with rootKey, senderChain, receiverChains, skippedMessageKeys }
    refine whole.of_read (funext fun rest => ?_)
    simp only [unpickle, Bool.false_eq_true, if_false]
  · rw [mul_assoc, mul_assoc, mul_assoc]
    have whole := (sharedKey_fills.delimited value.rootKey).seq fun rootKey =>
      (senderChains_delimited value.senderChain).seq fun senderChain =>
        (receiverChains_delimited value.receiverChains).seq fun receiverChains =>
          (skippedMessageKeys_delimited value.skippedMessageKeys).seq fun skippedMessageKeys =>
            (uint32_fills.delimited 0).map fun _ =>
              { value with rootKey, senderChain, receiverChains, skippedMessageKeys }
    refine whole.of_read (funext fun rest => ?_)
    simp only [unpickle, if_true]

end Ratchet

namespace Session

/-- The flag, the three keys and the ratchet, which the second version ends with a chain index. -/
def fields : Language UInt8 := announced fun version =>
  if version = 1 then
    ofLength UInt8 1 * ofLength UInt8 32 * ofLength UInt8 32 * ofLength UInt8 32 * ratchetFields
  else if version = 0x80000001 then
    ofLength UInt8 1 * ofLength UInt8 32 * ofLength UInt8 32 * ofLength UInt8 32 * (ratchetFields * ofLength UInt8 4)
  else 0

theorem unpickleFields_delimited (value : Session (Block 32)) {includesChainIndex : Bool} {words : Language UInt8}
    (ratchet : Delimited (Ratchet.unpickle · value.ratchet includesChainIndex) words) :
    Delimited (unpickleFields · value includesChainIndex)
      (ofLength UInt8 1 * ofLength UInt8 32 * ofLength UInt8 32 * ofLength UInt8 32 * words) := by
  rw [mul_assoc, mul_assoc, mul_assoc]
  have whole := (bool_fills.delimited value.receivedMessage).seq fun receivedMessage =>
    (publicKey_fills.delimited value.aliceIdentityKey).seq fun aliceIdentityKey =>
      (publicKey_fills.delimited value.aliceBaseKey).seq fun aliceBaseKey =>
        (publicKey_fills.delimited value.bobOneTimeKey).seq fun bobOneTimeKey =>
          ratchet.map fun ratchet =>
            { value with receivedMessage, aliceIdentityKey, aliceBaseKey, bobOneTimeKey, ratchet }
  refine whole.of_read (funext fun rest => ?_)
  simp only [unpickleFields]

/-- What the reader does behind the version. -/
def unpickleVersion (value : Session (Block 32)) (version : UInt32) (rest : Bytes) : Bytes × Session (Block 32) :=
  if version = 1 then unpickleFields rest value false
  else if version = 0x80000001 then unpickleFields rest value true
  else ([], { value with lastError := .unknownPickleVersion })

theorem unpickleBody_delimited (value : Session (Block 32)) : Delimited (codec.read · value) fields := by
  obtain ⟨one, two⟩ := Ratchet.unpickle_delimited value.ratchet
  suffices versions : ∀ version, Delimited (unpickleVersion value version) _ from announced_delimited versions 0
  intro version
  unfold unpickleVersion
  by_cases first : version = 1
  · simp only [if_pos first]
    exact unpickleFields_delimited value one
  · by_cases second : version = 0x80000001
    · simp only [if_neg first, if_pos second]
      exact unpickleFields_delimited value two
    · simp only [if_neg first, if_neg second]
      exact Delimited.of_failing fun _ => rfl

end Session

namespace PkDecryption

def fields : Language UInt8 := announced fun version => if version = 1 then ofLength UInt8 64 else 0

def unpickleVersion (value : PkDecryption) (version : UInt32) (rest : Bytes) : Bytes × PkDecryption :=
  if version = 1 then
    let (rest, keyPair) := curve25519KeyPair.read rest value.keyPair
    (rest, { value with keyPair })
  else ([], { value with lastError := .unknownPickleVersion })

theorem unpickleBody_delimited (value : PkDecryption) : Delimited (codec.read · value) fields := by
  have versions (version : UInt32) :
      Delimited (unpickleVersion value version) (if version = 1 then ofLength UInt8 64 else 0) := by
    unfold unpickleVersion
    by_cases known : version = 1
    · simp only [if_pos known]
      exact (curve25519KeyPair_fills.delimited _).map fun keyPair => { value with keyPair }
    · simp only [if_neg known]
      exact Delimited.of_failing fun _ => rfl
  exact announced_delimited versions 0

end PkDecryption

end RubyOlm
