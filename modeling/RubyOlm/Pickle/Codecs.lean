import RubyOlm.Theory.Codec
import RubyOlm.Pickle
import RubyOlm.List

/-!
# Pickled fields and lists

The overloads `pickle_length`, `pickle` and `unpickle` for one type are a codec. A list is read by adding to what is in
it already, so it is restored only into an empty one.
-/

namespace RubyOlm

namespace Pickle

/-! ### Fields -/

def uint32 : Codec UInt8 UInt32 where
  length _ := 4
  write := bigEndian
  read rest _ := unpickleUint32 rest

def bool : Codec UInt8 Bool where
  length _ := 1
  write := pickleBool
  read := unpickleBool

/-- `pickle_bytes` and `unpickle_bytes`, for an array. -/
def bytes (n : Nat) : Codec UInt8 (Block n) where
  length _ := n
  write := Subtype.val
  read := unpickleBytes

/-- Both kinds of public keys. -/
def publicKey : Codec UInt8 PublicKey := bytes 32

def sharedKey : Codec UInt8 (Block 32) := bytes 32

def curve25519KeyPair : Codec UInt8 Curve25519KeyPair where
  length _ := 32 + 32
  write value := value.publicKey.val ++ value.privateKey.val
  read rest value :=
    let (rest, publicKey) := unpickleBytes rest value.publicKey
    let (rest, privateKey) := unpickleBytes rest value.privateKey
    (rest, { publicKey, privateKey })

def ed25519KeyPair : Codec UInt8 Ed25519KeyPair where
  length _ := 32 + 64
  write := Ed25519KeyPair.pickle
  read := Ed25519KeyPair.unpickle

def megolm : Codec UInt8 (Megolm (Block 32)) where
  length megolm := (bytes 128).length megolm.getData + uint32.length megolm.counter
  write := Megolm.pickle
  read := Megolm.unpickle

theorem uint32_lawful : uint32.Lawful where
  length_write _ := rfl
  read_write value rest _ := unpickleUint32_append value rest

theorem bool_lawful : bool.Lawful where
  length_write _ := rfl
  read_write value _ _ := by cases value <;> rfl

theorem bytes_lawful (n : Nat) : (bytes n).Lawful where
  length_write := Block.length_val
  read_write value rest old := unpickleBytes_append value old rest

theorem publicKey_lawful : publicKey.Lawful := bytes_lawful 32

theorem sharedKey_lawful : sharedKey.Lawful := bytes_lawful 32

theorem curve25519KeyPair_lawful : curve25519KeyPair.Lawful where
  length_write value := by
    simp only [curve25519KeyPair, List.length_append, Block.length_val]
  read_write value rest old := by
    simp only [curve25519KeyPair, List.append_assoc, unpickleBytes_append]

theorem ed25519KeyPair_lawful : ed25519KeyPair.Lawful where
  length_write value := by
    simp only [ed25519KeyPair, Ed25519KeyPair.pickle, List.length_append, Block.length_val]
  read_write value rest old := by
    simp only [ed25519KeyPair, Ed25519KeyPair.pickle, Ed25519KeyPair.unpickle, List.append_assoc, unpickleBytes_append]

theorem megolm_lawful : megolm.Lawful where
  length_write value := by
    simp only [megolm, bytes, uint32, Megolm.pickle, List.length_append, Block.length_val, length_bigEndian]
  read_write value rest old := by
    simp only [megolm, Megolm.pickle, Megolm.unpickle, List.append_assoc, unpickleBytes_append, unpickleUint32_append,
      Megolm.init_getData]

/-! ### Lists -/

variable {α : Type} {maxSize : Nat} (element : Codec UInt8 α)

/-- The loop of `unpickle`. An element is read into the slot that was made for it at the end. -/
def unpickleElements : (size : Nat) → (rest : Bytes) → OlmList α maxSize → Bytes × OlmList α maxSize
  | 0, rest, list => (rest, list)
  | size + 1, rest, list =>
    if rest = [] then (rest, list)
    else
      let (list, pos) := list.makeRoom list.size
      match list.data[pos]? with
      | none => (rest, list)
      | some slot =>
        let (rest, value) := element.read rest slot
        unpickleElements size rest (list.set pos value)

def list : Codec UInt8 (OlmList α maxSize) where
  length list := uint32.length (UInt32.ofNat list.size) + (list.toList.map element.length).sum
  write list := uint32.write (UInt32.ofNat list.size) ++ list.toList.flatMap element.write
  read rest list :=
    let (rest, size) := uint32.read rest 0
    unpickleElements element size.toNat rest list

variable {element}

/-- One turn, while there is room. -/
theorem unpickleElements_succ (list : OlmList α maxSize) (size : Nat) {rest : Bytes} (more : rest ≠ [])
    (room : list.size < maxSize) : ∃ slot, unpickleElements element (size + 1) rest list =
      unpickleElements element size (element.read rest slot).1
        (list.insert list.size (element.read rest slot).2) := by
  have made : (list.makeRoom list.size).1.data = list.data ∧ (list.makeRoom list.size).2 = list.size := by
    rw [OlmList.makeRoom, dif_pos room, Nat.sub_self]
    exact ⟨rfl, rfl⟩
  refine ⟨list.data[list.size], ?_⟩
  rw [unpickleElements, if_neg more]
  dsimp only
  rw [made.1, made.2, Vector.getElem?_eq_getElem room, OlmList.insert, made.2]

theorem toList_insert_end (list : OlmList α maxSize) (value : α) (room : list.size < maxSize) :
    (list.insert list.size value).toList = list.toList ++ [value] := by
  rw [OlmList.toList_insert list value (Nat.le_refl _) (.inl room), ← OlmList.length_toList,
    List.insertIdx_length_self, List.take_of_length_le]
  rw [List.length_append, OlmList.length_toList, List.length_singleton]
  omega

/-- Elements are read in the order in which they were written, behind those that are there, as long as there is room
for all of them. -/
theorem unpickleElements_write (lawful : element.Lawful) (nonempty : ∀ value, 0 < element.length value)
    (values : List α) (rest : Bytes) (list : OlmList α maxSize) (room : list.size + values.length ≤ maxSize) :
    ∃ restored, unpickleElements element values.length (values.flatMap element.write ++ rest) list =
      (rest, restored) ∧ restored.toList = list.toList ++ values := by
  induction values generalizing list with
  | nil => exact ⟨list, rfl, (List.append_nil _).symm⟩
  | cons value values ih =>
    rw [List.length_cons] at room
    have written : (value :: values).flatMap element.write ++ rest =
        element.write value ++ (values.flatMap element.write ++ rest) := by
      rw [List.flatMap_cons, List.append_assoc]
    have more : element.write value ++ (values.flatMap element.write ++ rest) ≠ [] := by
      have positive := nonempty value
      rw [← lawful.length_write] at positive
      exact List.append_ne_nil_of_left_ne_nil (List.ne_nil_of_length_pos positive) _
    have longer := toList_insert_end list value (by omega)
    have size : (list.insert list.size value).size = list.size + 1 := by
      rw [← OlmList.length_toList, longer, List.length_append, OlmList.length_toList, List.length_singleton]
    obtain ⟨slot, turn⟩ := @unpickleElements_succ α maxSize element list values.length _ more (by omega)
    rw [lawful.read_write] at turn
    obtain ⟨restored, read, same⟩ := ih (list.insert list.size value) (by omega)
    rw [written, List.length_cons, turn]
    refine ⟨restored, read, ?_⟩
    rw [same, longer, List.append_assoc, List.singleton_append]

theorem list_restores (lawful : element.Lawful) (nonempty : ∀ value, 0 < element.length value)
    (small : maxSize < 2 ^ 32) : (@list α maxSize element).Restores (fun old => old.toList = [])
      (fun value restored => restored.toList = value.toList) where
  length_write value := by
    have elements (values : List α) : (values.flatMap element.write).length = (values.map element.length).sum := by
      simp only [List.length_flatMap, lawful.length_write]
    simp only [list, List.length_append, uint32_lawful.length_write, elements]
  read_write {old} empty value rest := by
    have count : (UInt32.ofNat value.size).toNat = value.toList.length := by
      rw [OlmList.length_toList, UInt32.toNat_ofNat']
      have := value.size_le
      omega
    have none : old.size = 0 := by
      rw [← OlmList.length_toList, empty, List.length_nil]
    obtain ⟨restored, read, same⟩ := unpickleElements_write lawful nonempty value.toList rest old (by
      rw [none, OlmList.length_toList, Nat.zero_add]
      exact value.size_le)
    refine ⟨restored, ?_, by rw [same, empty, List.nil_append]⟩
    simp only [list, List.append_assoc, uint32_lawful.read_write, count]
    exact read

end Pickle

end RubyOlm
