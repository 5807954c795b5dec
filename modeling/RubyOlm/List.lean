import Mathlib.Data.List.Basic

/-!
# The fixed-capacity list

`olm::List` of `list.hh`: a backing array of `maxSize` slots and an end pointer. Elements are
shifted slot by slot, so slots past the end keep what was in them. The lemmas below say what each
operation does to the sequence of live elements, which is all that most callers look at.
-/

namespace RubyOlm

/-- `List<T, max_size>`; the end pointer is kept as the number of live slots. -/
structure OlmList (α : Type) (maxSize : Nat) where
  data : Vector α maxSize
  size : Nat
  size_le : size ≤ maxSize

namespace OlmList

variable {α : Type} {maxSize : Nat}

/-- `List()` over memory that already holds `data`. -/
def new (data : Vector α maxSize) : OlmList α maxSize := ⟨data, 0, Nat.zero_le _⟩

def toList (l : OlmList α maxSize) : List α := l.data.toList.take l.size

def empty (l : OlmList α maxSize) : Bool := l.size = 0

def copySlot (data : Vector α maxSize) (dst src : Nat) : Vector α maxSize :=
  match data[src]? with
  | some value => data.setIfInBounds dst value
  | none => data

/-- The loop of `erase`: `count` slots from `pos` on take their successor's value. -/
def shiftDown (data : Vector α maxSize) (pos : Nat) : (count : Nat) → Vector α maxSize
  | 0 => data
  | count + 1 => shiftDown (copySlot data pos (pos + 1)) (pos + 1) count

def erase (l : OlmList α maxSize) (pos : Nat) : OlmList α maxSize :=
  ⟨shiftDown l.data pos (l.size - 1 - pos), l.size - 1, by have := l.size_le; omega⟩

/-- The loop of `insert`: `count` slots above `pos`, from the last down, take their predecessor's
value. -/
def shiftUp (data : Vector α maxSize) (pos : Nat) : (count : Nat) → Vector α maxSize
  | 0 => data
  | count + 1 => shiftUp (copySlot data (pos + count + 1) (pos + count)) pos count

/-- `insert(pos)`, which makes room and returns where. The slot still holds its old value. -/
def makeRoom (l : OlmList α maxSize) (pos : Nat) : OlmList α maxSize × Nat :=
  if room : l.size < maxSize then
    (⟨shiftUp l.data pos (l.size - pos), l.size + 1, room⟩, pos)
  else
    let pos := if pos = l.size then pos - 1 else pos
    (⟨shiftUp l.data pos (l.size - 1 - pos), l.size, l.size_le⟩, pos)

def set (l : OlmList α maxSize) (pos : Nat) (value : α) : OlmList α maxSize :=
  { l with data := l.data.setIfInBounds pos value }

def insert (l : OlmList α maxSize) (pos : Nat) (value : α) : OlmList α maxSize :=
  (l.makeRoom pos).1.set (l.makeRoom pos).2 value

/-- `insert()` with every field of the new slot assigned right after. -/
def pushFront (l : OlmList α maxSize) (value : α) : OlmList α maxSize := l.insert 0 value

/-! ### The live elements after each operation -/

theorem getElem?_toList (l : OlmList α maxSize) (i : Nat) :
    l.toList[i]? = if i < l.size then l.data[i]? else none := by
  rw [toList, List.getElem?_take]
  split <;> simp

@[simp] theorem length_toList (l : OlmList α maxSize) : l.toList.length = l.size := by
  simp [toList, l.size_le]

@[simp] theorem toList_new (data : Vector α maxSize) : (new data).toList = [] := by
  simp [toList, new]

theorem empty_iff (l : OlmList α maxSize) : l.empty = true ↔ l.toList = [] := by
  rw [empty, decide_eq_true_iff, ← length_toList, List.length_eq_zero_iff]

theorem data_eq_of_toList {l : OlmList α maxSize} {i : Nat} {value : α} (h : l.toList[i]? = some value) :
    l.data[i]? = some value := by
  rw [getElem?_toList] at h
  split at h
  · exact h
  · cases h

theorem data_zero_eq {l : OlmList α maxSize} (slots : 0 < maxSize) {value : α} {rest : List α}
    (live : l.toList = value :: rest) : l.data[0] = value := by
  have read : l.data[0]? = some value := data_eq_of_toList (by rw [live]; rfl)
  rw [Vector.getElem?_eq_getElem slots] at read
  exact Option.some.inj read

theorem getElem?_copySlot (data : Vector α maxSize) {dst src i : Nat} (hd : dst < maxSize)
    (hs : src < maxSize) : (copySlot data dst src)[i]? = if i = dst then data[src]? else data[i]? := by
  have read : data[src]? = some data[src] := Vector.getElem?_eq_getElem hs
  rw [copySlot, read, Vector.getElem?_setIfInBounds]
  by_cases same : i = dst
  · subst same; simp [hd]
  · simp [same, Ne.symm same]

theorem getElem?_shiftDown (data : Vector α maxSize) (pos count i : Nat) (fits : pos + count < maxSize) :
    (shiftDown data pos count)[i]? = if pos ≤ i ∧ i < pos + count then data[i + 1]? else data[i]? := by
  induction count generalizing data pos with
  | zero => rw [shiftDown, if_neg (by omega)]
  | succ count ih =>
    rw [shiftDown, ih _ _ (by omega)]
    by_cases inside : pos + 1 ≤ i ∧ i < pos + 1 + count
    · rw [if_pos inside, if_pos (by omega), getElem?_copySlot _ (by omega) (by omega),
        if_neg (by omega)]
    · rw [if_neg inside, getElem?_copySlot _ (by omega) (by omega)]
      by_cases first : i = pos
      · rw [if_pos first, if_pos (by omega), first]
      · rw [if_neg first, if_neg (by omega)]

theorem getElem?_shiftUp (data : Vector α maxSize) (pos count i : Nat) (fits : pos + count < maxSize) :
    (shiftUp data pos count)[i]? = if pos < i ∧ i ≤ pos + count then data[i - 1]? else data[i]? := by
  induction count generalizing data with
  | zero => rw [shiftUp, if_neg (by omega)]
  | succ count ih =>
    rw [shiftUp, ih _ (by omega)]
    by_cases inside : pos < i ∧ i ≤ pos + count
    · rw [if_pos inside, if_pos (by omega), getElem?_copySlot _ (by omega) (by omega),
        if_neg (by omega)]
    · rw [if_neg inside, getElem?_copySlot _ (by omega) (by omega)]
      by_cases last : i = pos + count + 1
      · rw [if_pos last, if_pos (by omega), last]
        rfl
      · rw [if_neg last, if_neg (by omega)]

theorem toList_erase (l : OlmList α maxSize) {pos : Nat} (live : pos < l.size) :
    (l.erase pos).toList = l.toList.eraseIdx pos := by
  have bound := l.size_le
  apply List.ext_getElem?
  intro i
  rw [getElem?_toList, List.getElem?_eraseIdx, erase, getElem?_shiftDown _ _ _ _ (by omega)]
  simp only [getElem?_toList]
  grind

theorem toList_set (l : OlmList α maxSize) (pos : Nat) (value : α) :
    (l.set pos value).toList = l.toList.set pos value := by
  simp only [toList, set, Vector.toList_setIfInBounds, List.take_set]

/-- `insert` away from the end of a full list: the new element goes in at `pos`, and what no longer
fits falls off the end. -/
theorem toList_insert (l : OlmList α maxSize) {pos : Nat} (value : α) (inside : pos ≤ l.size)
    (room : l.size < maxSize ∨ pos < l.size) :
    (l.insert pos value).toList = (l.toList.insertIdx pos value).take maxSize := by
  have bound := l.size_le
  apply List.ext_getElem?
  intro i
  rw [insert, toList_set, List.getElem?_set, List.getElem?_take, List.getElem?_insertIdx]
  simp only [getElem?_toList]
  by_cases space : l.size < maxSize
  · simp only [makeRoom, dif_pos space, length_toList]
    rw [getElem?_shiftUp _ _ _ _ (by omega)]
    grind
  · have inner : ¬ pos = l.size := by omega
    simp only [makeRoom, dif_neg space, if_neg inner, length_toList]
    rw [getElem?_shiftUp _ _ _ _ (by omega)]
    grind

/-- At the end of a full list the new element takes the place of the last one. -/
theorem toList_insert_end (l : OlmList α maxSize) (value : α) (full : l.size = maxSize) (slots : 0 < maxSize) :
    (l.insert l.size value).toList = l.toList.dropLast ++ [value] := by
  have room : ¬ l.size < maxSize := by omega
  have last : l.size - 1 < l.toList.length := by
    rw [length_toList]
    omega
  have nothing : l.toList.drop (l.size - 1 + 1) = [] := List.drop_of_length_le (by rw [length_toList]; omega)
  have same : (⟨l.data, l.size, l.size_le⟩ : OlmList α maxSize) = l := rfl
  simp only [insert, makeRoom, dif_neg room, if_true, Nat.sub_self, shiftUp, same]
  rw [toList_set, List.set_eq_take_append_cons_drop, if_pos last, nothing, List.dropLast_eq_take, length_toList]

theorem toList_pushFront (l : OlmList α maxSize) (value : α) (slots : 0 < maxSize) :
    (l.pushFront value).toList = (value :: l.toList).take maxSize := by
  rw [pushFront, toList_insert l value (Nat.zero_le _) (by omega), List.insertIdx_zero]

theorem take_toList (l : OlmList α maxSize) : l.toList.take maxSize = l.toList := by
  apply List.take_of_length_le
  rw [length_toList]
  exact l.size_le

/-- Of elements that are pushed one after the other, it does not matter which ones fell off the end on the way. -/
theorem take_append_take (front back : List α) (n : Nat) : (front ++ back.take n).take n = (front ++ back).take n := by
  rw [List.take_append, List.take_append, List.take_take, Nat.min_eq_left (Nat.sub_le _ _)]

end OlmList

end RubyOlm
