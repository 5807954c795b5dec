import RubyOlm.Buffers.ExactPickle

/-!
# Unpickling over what an object held

Lists are read by adding to them, so what was in them stays, or is displaced where a list is full. Two objects come out
alike from one pickle when they held the same lists, and otherwise only when both lists are filled to the end.
-/

namespace RubyOlm

namespace Pickle

section Lists

variable {α : Type} {maxSize : Nat}

/-- A list of so many slots after values were added at its end. The last slot takes all that do not fit. -/
def added (maxSize : Nat) (old values : List α) : List α :=
  if old.length + values.length ≤ maxSize then old ++ values
  else (old ++ values).take (maxSize - 1) ++ values.getLast?.toList

theorem toList_pushBack (slots : 0 < maxSize) (list : OlmList α maxSize) (value : α) :
    (pushBack list value).toList =
      if list.size < maxSize then list.toList ++ [value] else list.toList.take (maxSize - 1) ++ [value] := by
  have bound := list.size_le
  split
  · rename_i room
    exact toList_insert_end list value room
  · rename_i full
    have size : list.size = maxSize := by omega
    have made : list.makeRoom list.size = (list, list.size - 1) := by
      rw [OlmList.makeRoom, dif_neg full]
      dsimp only
      rw [if_pos rfl, Nat.sub_self]
      rfl
    have last : list.size - 1 < list.toList.length := by
      rw [OlmList.length_toList]
      omega
    have behind : list.toList.drop (list.size - 1 + 1) = [] :=
      List.drop_of_length_le (by rw [OlmList.length_toList]; omega)
    rw [pushBack, OlmList.insert, made, OlmList.toList_set, List.set_eq_take_append_cons_drop, if_pos last, behind, size]

theorem length_added (slots : 0 < maxSize) {old : List α} (values : List α) (fits : old.length ≤ maxSize) :
    (added maxSize old values).length = min maxSize (old.length + values.length) := by
  unfold added
  split
  · rename_i room
    rw [List.length_append, Nat.min_eq_right room]
  · rename_i full
    have some_value : values ≠ [] := by
      rintro rfl
      exact full fits
    rw [List.length_append, List.length_take, List.length_append, List.getLast?_eq_some_getLast some_value]
    show _ + 1 = _
    omega

theorem toList_foldl_pushBack (slots : 0 < maxSize) (list : OlmList α maxSize) (values : List α) :
    (values.foldl pushBack list).toList = added maxSize list.toList values := by
  have bound : list.toList.length ≤ maxSize := by
    rw [OlmList.length_toList]
    exact list.size_le
  induction values using List.reverseRecOn with
  | nil => rw [added, if_pos (by exact bound), List.append_nil, List.foldl_nil]
  | append_singleton values value ih =>
    have length := length_added slots values bound
    rw [List.foldl_append, List.foldl_cons, List.foldl_nil, toList_pushBack slots, ← OlmList.length_toList, ih, length]
    by_cases room : list.toList.length + values.length < maxSize
    · rw [if_pos (by omega), added, added, if_pos (by omega),
        if_pos (by rw [List.length_append, List.length_singleton]; omega), List.append_assoc]
    · have firsts : (added maxSize list.toList values).take (maxSize - 1) =
          (list.toList ++ values).take (maxSize - 1) := by
        unfold added
        split
        · rfl
        · rw [List.take_append_of_le_length, List.take_take, Nat.min_self]
          rw [List.length_take, List.length_append]
          omega
      have long : maxSize - 1 ≤ (list.toList ++ values).length := by
        rw [List.length_append]
        omega
      rw [if_neg (by omega), firsts, added, if_neg (by rw [List.length_append, List.length_singleton]; omega),
        ← List.append_assoc, List.take_append_of_le_length long, List.getLast?_concat]
      rfl

/-- Both lists are filled to the last slot, and the others agree. -/
structure Filled (maxSize : Nat) (old old' values : List α) : Prop where
  some_value : values ≠ []
  full : maxSize ≤ old.length + values.length
  full' : maxSize ≤ old'.length + values.length
  others : (old ++ values).take (maxSize - 1) = (old' ++ values).take (maxSize - 1)

/-- When a list comes out the same over two others. -/
def Overlays (maxSize : Nat) (old old' values : List α) : Prop := old = old' ∨ Filled maxSize old old' values

theorem added_full {old values : List α} (some_value : values ≠ []) (full : maxSize ≤ old.length + values.length) :
    added maxSize old values = (old ++ values).take (maxSize - 1) ++ [values.getLast some_value] := by
  unfold added
  split
  · rename_i fits
    have length : (old ++ values).length = maxSize := by
      rw [List.length_append]
      omega
    have last : (old ++ values).getLast (List.append_ne_nil_of_right_ne_nil old some_value) =
        values.getLast some_value := List.getLast_append_of_ne_nil _ some_value
    rw [← last, ← length, ← List.dropLast_eq_take, List.dropLast_append_getLast]
  · rw [List.getLast?_eq_some_getLast some_value]
    rfl

theorem added_eq_iff (slots : 0 < maxSize) {old old' : List α} (fits : old.length ≤ maxSize)
    (fits' : old'.length ≤ maxSize) (values : List α) :
    added maxSize old values = added maxSize old' values ↔ Overlays maxSize old old' values := by
  constructor
  · intro same
    by_cases none : values = []
    · rw [none, added, added, if_pos (by exact fits), if_pos (by exact fits'), List.append_nil, List.append_nil] at same
      exact .inl same
    · have lengths := congrArg List.length same
      rw [length_added slots _ fits, length_added slots _ fits'] at lengths
      by_cases full : maxSize ≤ old.length + values.length
      · have full' : maxSize ≤ old'.length + values.length := by omega
        rw [added_full none full, added_full none full'] at same
        exact .inr ⟨none, full, full', List.append_cancel_right same⟩
      · rw [added, added, if_pos (by omega), if_pos (by omega)] at same
        exact .inl (List.append_cancel_right same)
  · rintro (rfl | ⟨none, full, full', others⟩)
    · rfl
    · rw [added_full none full, added_full none full', others]

theorem foldl_pushBack_alike_iff (slots : 0 < maxSize) {first second : OlmList α maxSize} {values : List α} :
    (values.foldl pushBack first).toList = (values.foldl pushBack second).toList ↔
      Overlays maxSize first.toList second.toList values := by
  have fits (list : OlmList α maxSize) : list.toList.length ≤ maxSize := by
    rw [OlmList.length_toList]
    exact list.size_le
  rw [toList_foldl_pushBack slots, toList_foldl_pushBack slots, added_eq_iff slots (fits first) (fits second)]

end Lists

end Pickle

open Pickle

/-! ### What bodies hold -/

namespace Pickle

theorem oneTimeKeys_read_append {word : Bytes} (mem : word ∈ counted (ofLength UInt8 69)) (tail : Bytes)
    (old : OlmList OneTimeKey maxOneTimeKeys) : (list oneTimeKey).read (word ++ tail) old =
      (tail, (readList oneTimeKey blankOneTimeKey word).2.foldl pushBack old) :=
  list_read_append oneTimeKey_fills (by decide) (some_byte (by decide)) blankOneTimeKey mem tail old

theorem senderChains_read_append {word : Bytes} (mem : word ∈ counted (ofLength UInt8 100)) (tail : Bytes)
    (old : OlmList (SenderChain (Block 32)) 1) : (list senderChain).read (word ++ tail) old =
      (tail, (readList senderChain blankSenderChain word).2.foldl pushBack old) :=
  list_read_append senderChain_fills (by decide) (some_byte (by decide)) blankSenderChain mem tail old

theorem receiverChains_read_append {word : Bytes} (mem : word ∈ counted (ofLength UInt8 68)) (tail : Bytes)
    (old : OlmList (ReceiverChain (Block 32)) maxReceiverChains) : (list receiverChain).read (word ++ tail) old =
      (tail, (readList receiverChain blankReceiverChain word).2.foldl pushBack old) :=
  list_read_append receiverChain_fills (by decide) (some_byte (by decide)) blankReceiverChain mem tail old

theorem skippedMessageKeys_read_append {word : Bytes} (mem : word ∈ counted (ofLength UInt8 68)) (tail : Bytes)
    (old : OlmList (SkippedMessageKey (Block 32)) maxSkippedMessageKeys) :
    (list skippedMessageKey).read (word ++ tail) old =
      (tail, (readList skippedMessageKey blankSkippedMessageKey word).2.foldl pushBack old) :=
  list_read_append skippedMessageKey_fills (by decide) (some_byte (by decide)) blankSkippedMessageKey mem tail old

end Pickle

namespace Account

/-- The one-time keys in a body, behind the version and the identity keys. -/
def heldKeys (body : Bytes) : List OneTimeKey := (readList oneTimeKey blankOneTimeKey (body.drop 164)).2

/-- All but the one-time keys is replaced. -/
theorem unpickleBody_of_mem {body : Bytes} (mem : body ∈ fields) : ∃ identityKeys nextOneTimeKeyId,
    ∀ value : Account, (codec.read body value).2 =
      { value with identityKeys, nextOneTimeKeyId,
                   oneTimeKeys := (heldKeys body).foldl pushBack value.oneTimeKeys } := by
  obtain ⟨number, rest, four, mem, rfl⟩ := mem
  by_cases known : loadBigEndian number = 2
  · dsimp only at mem
    rw [if_pos known] at mem
    obtain ⟨_, ⟨keys, keys_mem, list, list_mem, rfl⟩, next, next_mem, rfl⟩ := mem
    have long : (number ++ keys).length = 164 := by
      rw [List.length_append, four, mem_ofLength.mp keys_mem]
    have held : heldKeys (number ++ ((keys ++ list) ++ next)) = (readList oneTimeKey blankOneTimeKey list).2 := by
      unfold heldKeys
      rw [List.append_assoc, ← List.append_assoc number, ← long, List.drop_left,
        readList_append oneTimeKey_fills _ list_mem]
    refine ⟨(Pickle.identityKeys.read keys clearAccount.identityKeys).2, loadBigEndian next, fun value => ?_⟩
    have last := uint32_read_append next_mem [] value.nextOneTimeKeyId
    rw [List.append_nil] at last
    rw [held]
    simp only [codec, unpickleBody, uint32_read_append four, known, pickleVersion, if_true, List.append_assoc,
      identityKeys_fills.read_eq keys_mem _ _ clearAccount.identityKeys,
      oneTimeKeys_read_append list_mem, last]
  · dsimp only at mem
    rw [if_neg known] at mem
    exact absurd mem (Language.notMem_zero _)

end Account

/-- The lists of a ratchet. -/
structure HeldLists where
  senderChain : List (SenderChain (Block 32))
  receiverChains : List (ReceiverChain (Block 32))
  skippedMessageKeys : List (SkippedMessageKey (Block 32))

namespace Ratchet

/-- The lists behind a root key. -/
def heldLists (rest : Bytes) : HeldLists :=
  let (rest, senderChain) := readList Pickle.senderChain blankSenderChain (rest.drop 32)
  let (rest, receiverChains) := readList receiverChain blankReceiverChain rest
  let (_, skippedMessageKeys) := readList skippedMessageKey blankSkippedMessageKey rest
  { senderChain, receiverChains, skippedMessageKeys }

def addLists (value : Ratchet (Block 32)) (rootKey : Block 32) (held : HeldLists) : Ratchet (Block 32) :=
  { value with rootKey,
               senderChain := held.senderChain.foldl pushBack value.senderChain,
               receiverChains := held.receiverChains.foldl pushBack value.receiverChains,
               skippedMessageKeys := held.skippedMessageKeys.foldl pushBack value.skippedMessageKeys }

theorem unpickle_of_mem {word : Bytes} (mem : word ∈ ratchetFields) (tail : Bytes) (includesChainIndex : Bool) :
    ∃ rootKey, ∀ value : Ratchet (Block 32),
      (unpickle (word ++ tail) value includesChainIndex).2 = value.addLists rootKey (heldLists (word ++ tail)) := by
  obtain ⟨_, ⟨_, ⟨root, root_mem, sender, sender_mem, rfl⟩, receivers, receivers_mem, rfl⟩, skipped, skipped_mem, rfl⟩ :=
    mem
  have held : heldLists (root ++ (sender ++ (receivers ++ (skipped ++ tail)))) =
      { senderChain := (readList Pickle.senderChain blankSenderChain sender).2,
        receiverChains := (readList receiverChain blankReceiverChain receivers).2,
        skippedMessageKeys := (readList skippedMessageKey blankSkippedMessageKey skipped).2 } := by
    have root_length : root.length = 32 := root_mem
    simp only [heldLists, ← root_length, List.drop_left, readList_append senderChain_fills _ sender_mem,
      readList_append receiverChain_fills _ receivers_mem, readList_append skippedMessageKey_fills _ skipped_mem]
  refine ⟨(sharedKey.read root (Block.zero 32)).2, fun value => ?_⟩
  simp only [List.append_assoc, held]
  simp only [unpickle, addLists, sharedKey_fills.read_eq root_mem _ _ (Block.zero 32),
    senderChains_read_append sender_mem, receiverChains_read_append receivers_mem,
    skippedMessageKeys_read_append skipped_mem]

end Ratchet

namespace Session

/-- The lists of the ratchet in a body, behind the version, the flag and the keys. -/
def heldLists (body : Bytes) : HeldLists := Ratchet.heldLists (body.drop 101)

theorem unpickleFields_of_mem {flag first second third ratchet : Bytes} (flag_mem : flag ∈ ofLength UInt8 1)
    (first_mem : first ∈ ofLength UInt8 32) (second_mem : second ∈ ofLength UInt8 32)
    (third_mem : third ∈ ofLength UInt8 32) (mem : ratchet ∈ ratchetFields) (tail : Bytes) (includesChainIndex : Bool) :
    ∃ receivedMessage aliceIdentityKey aliceBaseKey bobOneTimeKey rootKey, ∀ value : Session (Block 32),
      (unpickleFields (flag ++ (first ++ (second ++ (third ++ (ratchet ++ tail))))) value includesChainIndex).2 =
        { value with receivedMessage, aliceIdentityKey, aliceBaseKey, bobOneTimeKey,
                     ratchet := value.ratchet.addLists rootKey (Ratchet.heldLists (ratchet ++ tail)) } := by
  obtain ⟨rootKey, restored⟩ := Ratchet.unpickle_of_mem mem tail includesChainIndex
  refine ⟨(bool.read flag false).2, (publicKey.read first (Block.zero 32)).2, (publicKey.read second (Block.zero 32)).2,
    (publicKey.read third (Block.zero 32)).2, rootKey, fun value => ?_⟩
  simp only [unpickleFields, bool_fills.read_eq flag_mem _ _ false,
    publicKey_fills.read_eq first_mem _ _ (Block.zero 32), publicKey_fills.read_eq second_mem _ _ (Block.zero 32),
    publicKey_fills.read_eq third_mem _ _ (Block.zero 32), restored]

/-- All but the lists of the ratchet is replaced. -/
theorem unpickleBody_of_mem {body : Bytes} (mem : body ∈ fields) :
    ∃ receivedMessage aliceIdentityKey aliceBaseKey bobOneTimeKey rootKey, ∀ value : Session (Block 32),
      (codec.read body value).2 =
        { value with receivedMessage, aliceIdentityKey, aliceBaseKey, bobOneTimeKey,
                     ratchet := value.ratchet.addLists rootKey (heldLists body) } := by
  obtain ⟨number, rest, four, mem, rfl⟩ := mem
  dsimp only at mem
  have behind {flag first second third : Bytes} (flag_mem : flag ∈ ofLength UInt8 1)
      (first_mem : first ∈ ofLength UInt8 32) (second_mem : second ∈ ofLength UInt8 32)
      (third_mem : third ∈ ofLength UInt8 32) (ratchet : Bytes) :
      heldLists (number ++ (flag ++ (first ++ (second ++ (third ++ ratchet))))) = Ratchet.heldLists ratchet := by
    have long : (number ++ flag ++ first ++ second ++ third).length = 101 := by
      simp only [List.length_append, four, mem_ofLength.mp flag_mem, mem_ofLength.mp first_mem,
        mem_ofLength.mp second_mem, mem_ofLength.mp third_mem]
    unfold heldLists
    rw [← List.append_assoc, ← List.append_assoc, ← List.append_assoc, ← List.append_assoc, ← long, List.drop_left]
  by_cases known : loadBigEndian number = 1
  · rw [if_pos known] at mem
    obtain ⟨_, ⟨_, ⟨_, ⟨flag, flag_mem, first, first_mem, rfl⟩, second, second_mem, rfl⟩, third, third_mem, rfl⟩,
      ratchet, ratchet_mem, rfl⟩ := mem
    have restored := unpickleFields_of_mem flag_mem first_mem second_mem third_mem ratchet_mem [] false
    rw [List.append_nil] at restored
    simp only [codec, unpickleBody, uint32_read_append four, known, if_true, List.append_assoc,
      behind flag_mem first_mem second_mem third_mem]
    exact restored
  · rw [if_neg known] at mem
    by_cases legacy : loadBigEndian number = 0x80000001
    · rw [if_pos legacy] at mem
      obtain ⟨_, ⟨_, ⟨_, ⟨flag, flag_mem, first, first_mem, rfl⟩, second, second_mem, rfl⟩, third, third_mem, rfl⟩,
        _, ⟨ratchet, ratchet_mem, index, index_mem, rfl⟩, rfl⟩ := mem
      have restored := unpickleFields_of_mem flag_mem first_mem second_mem third_mem ratchet_mem index true
      simp only [codec, unpickleBody, uint32_read_append four, if_neg known, if_pos legacy, List.append_assoc,
        behind flag_mem first_mem second_mem third_mem]
      exact restored
    · rw [if_neg legacy] at mem
      exact absurd mem (Language.notMem_zero _)

end Session

/-! ### Two prior objects -/

section Prior

open Prog

variable {B : Type} [DecidableEq B] {α : Type} (crypto : Crypto)

/-- Whenever a pickle is accepted, it makes two objects alike exactly under a condition on what they held and on the
body. -/
def AlikeExactly (unpickle : (key : Bytes) → (pickled : Pointer B) → (pickledLength : Nat) → α →
    Prog B (α × Option Nat)) (Alike : α → α → Prop) (Condition : (body : Bytes) → α → α → Prop) : Prop :=
  ∀ key pickled pickledLength memory first second,
    (unpickle key pickled pickledLength first memory).value.2.isSome →
    ∃ body, opened crypto key pickled pickledLength memory = .ok body ∧
      (unpickle key pickled pickledLength second memory).value.2.isSome ∧
      (Alike (unpickle key pickled pickledLength first memory).value.1
        (unpickle key pickled pickledLength second memory).value.1 ↔ Condition body first second)

theorem alikeExactly_codec {codec : Codec UInt8 α} (lastError : α → OlmErrorCode) (setError : α → OlmErrorCode → α)
    {fields : Language UInt8} (delimited : ∀ object, Delimited (codec.read · object) fields) {Alike : α → α → Prop}
    {Condition : (body : Bytes) → α → α → Prop}
    (reads : ∀ body ∈ fields, ∀ first second,
      Alike (codec.read body first).2 (codec.read body second).2 ↔ Condition body first second) :
    AlikeExactly (B := B) crypto (fun key pickled pickledLength object =>
      unpickleAt crypto codec lastError setError object key pickled pickledLength) Alike Condition := by
  intro key pickled pickledLength memory first second accepted
  obtain ⟨body, mem, holds⟩ := (unpickleAt_isSome_iff delimited).mp accepted
  refine ⟨body, holds, (unpickleAt_isSome_iff delimited).mpr ⟨body, mem, holds⟩, ?_⟩
  dsimp only
  rw [unpickleAt_of_mem delimited mem holds, unpickleAt_of_mem delimited mem holds]
  exact reads body mem first second

theorem Account.alike_iff {body : Bytes} (mem : body ∈ Account.fields) (first second : Account) :
    (Account.codec.read body first).2.Restored (Account.codec.read body second).2 ↔
      Overlays maxOneTimeKeys first.oneTimeKeys.toList second.oneTimeKeys.toList (Account.heldKeys body) := by
  obtain ⟨identityKeys, nextOneTimeKeyId, read⟩ := Account.unpickleBody_of_mem mem
  rw [read, read, ← foldl_pushBack_alike_iff (by decide)]
  exact ⟨fun alike => alike.oneTimeKeys.symm, fun same => ⟨rfl, same.symm, rfl⟩⟩

theorem Ratchet.addLists_alike_iff (first second : Ratchet (Block 32)) (rootKey : Block 32) (held : HeldLists) :
    (first.addLists rootKey held).Restored (second.addLists rootKey held) ↔
      Overlays 1 first.senderChain.toList second.senderChain.toList held.senderChain ∧
      Overlays maxReceiverChains first.receiverChains.toList second.receiverChains.toList held.receiverChains ∧
      Overlays maxSkippedMessageKeys first.skippedMessageKeys.toList second.skippedMessageKeys.toList
        held.skippedMessageKeys := by
  rw [← foldl_pushBack_alike_iff Nat.one_pos, ← foldl_pushBack_alike_iff (by decide),
    ← foldl_pushBack_alike_iff (by decide)]
  constructor
  · rintro ⟨-, sender, receivers, skipped⟩
    exact ⟨sender.symm, receivers.symm, skipped.symm⟩
  · rintro ⟨sender, receivers, skipped⟩
    exact ⟨rfl, sender.symm, receivers.symm, skipped.symm⟩

theorem Session.alike_iff {body : Bytes} (mem : body ∈ Session.fields) (first second : Session (Block 32)) :
    (Session.codec.read body first).2.Restored (Session.codec.read body second).2 ↔
      Overlays 1 first.ratchet.senderChain.toList second.ratchet.senderChain.toList
        (Session.heldLists body).senderChain ∧
      Overlays maxReceiverChains first.ratchet.receiverChains.toList second.ratchet.receiverChains.toList
        (Session.heldLists body).receiverChains ∧
      Overlays maxSkippedMessageKeys first.ratchet.skippedMessageKeys.toList
        second.ratchet.skippedMessageKeys.toList (Session.heldLists body).skippedMessageKeys := by
  obtain ⟨receivedMessage, aliceIdentityKey, aliceBaseKey, bobOneTimeKey, rootKey, read⟩ :=
    Session.unpickleBody_of_mem mem
  rw [read, read, ← Ratchet.addLists_alike_iff _ _ rootKey]
  exact ⟨fun alike => alike.ratchet, fun alike => ⟨rfl, rfl, rfl, rfl, alike⟩⟩

/-- Restored objects are alike when their lists were, or were filled to the end where they differ. -/
theorem restored_alike_iff :
    AlikeExactly (B := B) crypto (Account.unpickleAt crypto) Account.Restored (fun body first second =>
      Overlays maxOneTimeKeys first.oneTimeKeys.toList second.oneTimeKeys.toList (Account.heldKeys body)) ∧
    AlikeExactly (B := B) crypto (Session.unpickleAt crypto) Session.Restored (fun body first second =>
      Overlays 1 first.ratchet.senderChain.toList second.ratchet.senderChain.toList
        (Session.heldLists body).senderChain ∧
      Overlays maxReceiverChains first.ratchet.receiverChains.toList second.ratchet.receiverChains.toList
        (Session.heldLists body).receiverChains ∧
      Overlays maxSkippedMessageKeys first.ratchet.skippedMessageKeys.toList
        second.ratchet.skippedMessageKeys.toList (Session.heldLists body).skippedMessageKeys) :=
  ⟨alikeExactly_codec crypto _ _ Account.unpickleBody_delimited fun _ mem => Account.alike_iff mem,
    alikeExactly_codec crypto _ _ Session.unpickleBody_delimited fun _ mem => Session.alike_iff mem⟩

/-- A pickle without one-time keys, unpickled over an account that has one. -/
theorem restored_not_alike :
    let pickled : Pointer Unit := ⟨(), 0⟩
    let text := encOutput Crypto.plain [] (Account.codec.write clearAccount)
    let memory := Memory.write (fun _ => 0) pickled text
    let holder := { clearAccount with oneTimeKeys := pushBack clearAccount.oneTimeKeys blankOneTimeKey }
    let first := Account.unpickleAt Crypto.plain [] pickled text.length clearAccount memory
    let second := Account.unpickleAt Crypto.plain [] pickled text.length holder memory
    first.value.2 = some text.length ∧ second.value.2 = some text.length ∧
      ¬ first.value.1.Restored second.value.1 := by
  intro pickled text memory holder first second
  have holds : opened Crypto.plain [] pickled text.length memory = .ok (Account.codec.write clearAccount) := by
    unfold opened
    rw [show memory.read pickled text.length = text from Memory.read_write _ _ _]
    exact encInput_surrounded Crypto.plain_permutation _ _ _ _ _
  have mem : Account.codec.write clearAccount ∈ Account.fields := by
    obtain ⟨restored, read, -⟩ := @Account.codec_restores.read_write clearAccount rfl clearAccount [0]
    rw [← (Account.unpickleBody_delimited clearAccount).leaves_one_iff _ 0, read]
    rfl
  have restores (object : Account) : (Account.unpickleAt Crypto.plain [] pickled text.length object memory).value =
      ((Account.codec.read (Account.codec.write clearAccount) object).2, some text.length) :=
    unpickleAt_of_mem Account.unpickleBody_delimited mem holds
  rw [show first.value = _ from restores clearAccount, show second.value = _ from restores holder]
  refine ⟨rfl, rfl, ?_⟩
  rw [Account.alike_iff mem clearAccount holder]
  intro overlays
  have none : clearAccount.oneTimeKeys.toList = [] := OlmList.toList_new _
  have one : holder.oneTimeKeys.toList = [blankOneTimeKey] := by
    rw [show holder.oneTimeKeys = pushBack clearAccount.oneTimeKeys blankOneTimeKey from rfl,
      toList_pushBack (by decide), none, if_pos (by decide)]
    rfl
  have held : Account.heldKeys (Account.codec.write clearAccount) = [] := rfl
  rw [none, one, held] at overlays
  rcases overlays with same | filled
  · cases same
  · exact filled.some_value rfl

end Prior

end RubyOlm
