import RubyOlm.List
import RubyOlm.Theory.Slots

/-!
# The fixed-capacity list in its slots

`list.hh` over pointers into `_data`, which the loops of `erase` and `insert` shift element by element. To its callers
the list is a sequence of bounded length.
-/

namespace RubyOlm

/-! ### What the list is for -/

inductive ListCall (α : Type) where
  | insert (pos : Nat) (value : α)
  | erase (pos : Nat)

namespace BoundedSequence

variable {α : Type} (maxSize : Nat)

/-- What no longer fits falls off the end, but a value for the end of a full sequence takes the place of the last one. -/
def insert (xs : List α) (pos : Nat) (value : α) : List α :=
  if pos = xs.length ∧ xs.length = maxSize then xs.dropLast ++ [value] else (xs.insertIdx pos value).take maxSize

def call (xs : List α) : ListCall α → List α
  | .insert pos value => insert maxSize xs pos value
  | .erase pos => xs.eraseIdx pos

/-- `begin <= pos <= end` for an insertion, and `begin <= pos < end` for a removal. -/
def Fits (xs : List α) : ListCall α → Prop
  | .insert pos _ => pos ≤ xs.length
  | .erase pos => pos < xs.length

/-- Each call fits the sequence that those before it have left. -/
def Allowed : List α → List (ListCall α) → Prop
  | _, [] => True
  | xs, next :: calls => Fits xs next ∧ Allowed (call maxSize xs next) calls

end BoundedSequence

/-! ### The list -/

/-- The members of `List<T, max_size>`: `_data`, with the memory around it, and `_end` as a distance from it. -/
structure ListObject (α : Type) where
  slots : Slots α
  fin : Int

namespace ListObject

variable {α : Type} (maxSize turns : Nat)

/-- `List()` over any memory. -/
def new (memory : Int → α) : ListObject α := ⟨⟨memory, []⟩, 0⟩

/-- From `begin()` to `end()`. -/
def elements (list : ListObject α) : List α := (List.range list.fin.toNat).map fun i : Nat => list.slots.held i

def erase (list : ListObject α) (pos : Int) : Option (ListObject α) :=
  let fin := list.fin - 1
  (list.slots.slide 1 fin turns pos).map fun slots => ⟨slots, fin⟩

/-- `insert(pos)`: the list with room, and where. -/
def makeRoom (list : ListObject α) (pos : Int) : Option (ListObject α × Int) :=
  let (fin, pos) :=
    if list.fin ≠ maxSize then (list.fin + 1, pos)
    else if pos = list.fin then (list.fin, pos - 1)
    else (list.fin, pos)
  (list.slots.slide (-1) pos turns (fin - 1)).map fun slots => (⟨slots, fin⟩, pos)

/-- `insert(pos, value)`, of a value that is not itself in the list. -/
def insert (list : ListObject α) (pos : Int) (value : α) : Option (ListObject α × Int) :=
  (list.makeRoom maxSize turns pos).map fun (list, pos) => ({ list with slots := list.slots.put pos value }, pos)

def call (list : ListObject α) : ListCall α → Option (ListObject α)
  | .insert pos value => (list.insert maxSize turns pos value).map Prod.fst
  | .erase pos => list.erase turns pos

def run (list : ListObject α) (calls : List (ListCall α)) : Option (ListObject α) :=
  calls.foldlM (call maxSize turns) list

/-! ### Slots and elements -/

/-- Memory holds the list, and only its own slots were touched so far. -/
structure Represents (object : ListObject α) (list : OlmList α maxSize) : Prop where
  fin : object.fin = list.size
  held : ∀ (i : Nat) value, list.data[i]? = some value → object.slots.held i = value
  inside : ∀ i ∈ object.slots.touched, 0 ≤ i ∧ i < maxSize

variable {maxSize turns} {object : ListObject α} {list : OlmList α maxSize}

theorem represents_new (memory : Int → α) :
    Represents maxSize (new memory) (OlmList.new (Vector.ofFn fun i : Fin maxSize => memory i)) where
  fin := rfl
  held i value found := by
    rw [OlmList.new, Vector.getElem?_ofFn] at found
    split at found
    · exact Option.some.inj found
    · cases found
  inside i none := nomatch none

theorem Represents.elements (represents : Represents maxSize object list) : object.elements = list.toList := by
  have bound := list.size_le
  apply List.ext_getElem?
  intro i
  rw [ListObject.elements, represents.fin, Int.toNat_natCast, List.getElem?_map, OlmList.getElem?_toList]
  by_cases live : i < list.size
  · have found : list.data[i]? = some list.data[i] := Vector.getElem?_eq_getElem (by omega)
    rw [if_pos live, List.getElem?_range live, found, Option.map_some, represents.held i _ found]
  · rw [if_neg live, List.getElem?_eq_none (by rw [List.length_range]; omega), Option.map_none]

theorem represents_erase (represents : Represents maxSize object list) {pos : Nat} (live : pos < list.size)
    (enough : maxSize ≤ turns) : ∃ after, object.erase turns pos = some after ∧
      Represents maxSize after (list.erase pos) := by
  have bound := list.size_le
  obtain ⟨count, length⟩ : ∃ count, list.size = pos + count + 1 := ⟨list.size - 1 - pos, by omega⟩
  have start : ((pos + count : Nat) : Int) - 1 * count = pos := by omega
  obtain ⟨after, slid, moved, kept, touched⟩ :=
    Slots.slide_eq 1 (pos + count : Nat) (by decide) (show count < turns by omega) object.slots
  have fin : object.fin - 1 = (pos + count : Nat) := by
    rw [represents.fin, length]
    omega
  rw [start] at slid
  refine ⟨⟨after, (pos + count : Nat)⟩, by rw [erase, fin, slid]; rfl, ?_, ?_, ?_⟩
  · show ((pos + count : Nat) : Int) = (list.size - 1 : Nat)
    omega
  · intro i value found
    have shifted : list.size - 1 - pos = count := by omega
    rw [OlmList.erase, shifted, OlmList.getElem?_shiftDown _ _ _ _ (by omega)] at found
    split at found
    · rename_i inside
      have from' := moved (pos + count - i - 1) (by omega)
      rw [← represents.held (i + 1) value found]
      have src : ((pos + count : Nat) : Int) - 1 * (pos + count - i - 1 : Nat) = (i + 1 : Nat) := by omega
      have dst : ((pos + count : Nat) : Int) - 1 * ((pos + count - i - 1 : Nat) + 1) = i := by omega
      rwa [src, dst] at from'
    · rename_i outside
      rw [← represents.held i value found]
      exact kept i fun k lt same => outside (by omega)
  · intro i mem
    rcases touched i mem with mem | ⟨some, k, le, same⟩
    · exact represents.inside i mem
    · omega

/-- Shifting up makes room, and the value is put where the room is. -/
theorem represents_shift (represents : Represents maxSize object list) {pos count size : Nat}
    (fits : pos + count < maxSize) (enough : count < turns) (value : α) (inside : size ≤ maxSize) :
    ∃ after, object.slots.slide (-1) pos turns (pos + count : Nat) = some after ∧
      Represents maxSize ⟨after.put pos value, size⟩
        (OlmList.set ⟨OlmList.shiftUp list.data pos count, size, inside⟩ pos value) := by
  have start : (pos : Int) - -1 * count = (pos + count : Nat) := by omega
  obtain ⟨after, slid, moved, kept, touched⟩ :=
    Slots.slide_eq (-1) pos (by decide) enough object.slots
  rw [start] at slid
  refine ⟨after, slid, rfl, ?_, ?_⟩
  · intro i value' found
    dsimp only
    rw [OlmList.set, Vector.getElem?_setIfInBounds] at found
    split at found
    · rename_i same
      rw [if_pos (by omega)] at found
      rw [← same, Slots.put_same]
      exact Option.some.inj found
    · rename_i other
      rw [Slots.put_other (by omega)]
      rw [OlmList.getElem?_shiftUp _ _ _ _ fits] at found
      split at found
      · rename_i above
        have from' := moved (i - pos - 1) (by omega)
        rw [← represents.held (i - 1) value' found]
        have src : (pos : Int) - -1 * (i - pos - 1 : Nat) = (i - 1 : Nat) := by omega
        have dst : (pos : Int) - -1 * ((i - pos - 1 : Nat) + 1) = i := by omega
        rwa [src, dst] at from'
      · rename_i outside
        rw [← represents.held i value' found]
        exact kept i fun k lt same => outside (by omega)
  · intro i mem
    rcases List.mem_cons.mp mem with rfl | mem
    · omega
    · rcases touched i mem with mem | ⟨some, k, le, same⟩
      · exact represents.inside i mem
      · omega

theorem represents_insert (represents : Represents maxSize object list) {pos : Nat} (inside : pos ≤ list.size)
    (slots : 1 ≤ maxSize) (enough : maxSize ≤ turns) (value : α) :
    ∃ after, object.insert maxSize turns pos value = some (after, ((list.makeRoom pos).2 : Int)) ∧
      Represents maxSize after (list.insert pos value) := by
  have bound := list.size_le
  by_cases room : list.size < maxSize
  · obtain ⟨after, slid, stands⟩ := represents_shift represents
      (show pos + (list.size - pos) < maxSize by omega) (show _ < turns by omega) value room
    have notFull : object.fin ≠ maxSize := by
      rw [represents.fin]
      omega
    have last : object.fin + 1 - 1 = (pos + (list.size - pos) : Nat) := by
      rw [represents.fin]
      omega
    have grown : object.fin + 1 = (list.size + 1 : Nat) := by
      rw [represents.fin]
      rfl
    refine ⟨⟨after.put pos value, object.fin + 1⟩, ?_, ?_⟩
    · simp only [insert, makeRoom, if_pos notFull, last, slid, OlmList.makeRoom, dif_pos room]
      rfl
    · simp only [OlmList.insert, OlmList.makeRoom, dif_pos room, grown]
      exact stands
  · -- a full list: the element that was at the end is overwritten
    have full : object.fin = maxSize := by
      rw [represents.fin]
      omega
    obtain ⟨place, hplace⟩ : ∃ place, (if pos = list.size then pos - 1 else pos) = place := ⟨_, rfl⟩
    have chosen : (if object.fin ≠ maxSize then (object.fin + 1, (pos : Int))
        else if pos = object.fin then (object.fin, (pos : Int) - 1) else (object.fin, (pos : Int))) =
        (object.fin, (place : Int)) := by
      rw [if_neg (not_not.mpr full), ← hplace, represents.fin]
      split
      · rw [if_pos (by omega), Int.natCast_sub (by omega), Int.natCast_one]
      · rw [if_neg (by omega)]
    have below : place + (list.size - 1 - place) < maxSize := by
      rw [← hplace]
      split <;> omega
    obtain ⟨after, slid, stands⟩ := represents_shift represents below (show _ < turns by omega) value bound
    have last : object.fin - 1 = (place + (list.size - 1 - place) : Nat) := by
      rw [represents.fin, ← hplace]
      split <;> omega
    refine ⟨⟨after.put place value, object.fin⟩, ?_, ?_⟩
    · simp only [insert, makeRoom, chosen, last, slid, OlmList.makeRoom, dif_neg room, hplace]
      rfl
    · simp only [OlmList.insert, OlmList.makeRoom, dif_neg room, hplace, represents.fin]
      exact stands

/-! ### Calls -/

theorem toList_insert_eq (list : OlmList α maxSize) {pos : Nat} (inside : pos ≤ list.size) (slots : 1 ≤ maxSize)
    (value : α) : (list.insert pos value).toList = BoundedSequence.insert maxSize list.toList pos value := by
  have bound := list.size_le
  unfold BoundedSequence.insert
  rw [OlmList.length_toList]
  split
  · rename_i full
    rw [full.1, OlmList.toList_insert_end list value full.2 slots]
  · rename_i inner
    exact OlmList.toList_insert list value inside (by omega)

theorem makeRoom_live (list : OlmList α maxSize) {pos : Nat} (inside : pos ≤ list.size) (slots : 1 ≤ maxSize) (value : α) :
    (list.makeRoom pos).2 < (list.insert pos value).size := by
  have bound := list.size_le
  rw [OlmList.insert, OlmList.set, OlmList.makeRoom]
  split
  · dsimp only
    omega
  · dsimp only
    split <;> omega

variable (maxSize) in
/-- The list holds the sequence, and has touched only its own slots. -/
structure Holds (object : ListObject α) (xs : List α) : Prop where
  size : object.fin = xs.length
  bounded : xs.length ≤ maxSize
  elements : object.elements = xs
  inside : ∀ i ∈ object.slots.touched, 0 ≤ i ∧ i < maxSize

theorem Represents.holds (represents : Represents maxSize object list) : Holds maxSize object list.toList where
  size := by rw [represents.fin, OlmList.length_toList]
  bounded := by
    rw [OlmList.length_toList]
    exact list.size_le
  elements := represents.elements
  inside := represents.inside

variable (maxSize turns) in
/-- An insertion into a list that holds `xs` returns the slot of the new value. -/
def Inserts (object : ListObject α) (xs : List α) (pos : Nat) (value : α) : Prop :=
  ∃ after slot, object.insert maxSize turns pos value = some (after, slot) ∧
    Holds maxSize after (BoundedSequence.insert maxSize xs pos value) ∧
    0 ≤ slot ∧ slot < after.fin ∧ after.slots.held slot = value

variable (maxSize turns) in
def Erases (object : ListObject α) (xs : List α) (pos : Nat) : Prop :=
  ∃ after, object.erase turns pos = some after ∧ Holds maxSize after (xs.eraseIdx pos)

theorem Represents.inserts (represents : Represents maxSize object list) (slots : 1 ≤ maxSize) (enough : maxSize ≤ turns)
    {pos : Nat} (inside : pos ≤ list.toList.length) (value : α) : Inserts maxSize turns object list.toList pos value := by
  rw [OlmList.length_toList] at inside
  obtain ⟨after, inserted, stands⟩ := represents_insert represents inside slots enough value
  have live := makeRoom_live list inside slots value
  have bound := (list.insert pos value).size_le
  have holds := stands.holds
  rw [toList_insert_eq list inside slots] at holds
  refine ⟨after, _, inserted, holds, Int.natCast_nonneg _, ?_, stands.held _ value ?_⟩
  · rw [stands.fin]
    exact Int.ofNat_lt.mpr live
  · rw [OlmList.insert, OlmList.set, Vector.getElem?_setIfInBounds, if_pos rfl, if_pos (by omega)]

theorem Represents.erases (represents : Represents maxSize object list) (enough : maxSize ≤ turns) {pos : Nat}
    (live : pos < list.toList.length) : Erases maxSize turns object list.toList pos := by
  rw [OlmList.length_toList] at live
  obtain ⟨after, erased, stands⟩ := represents_erase represents live enough
  have holds := stands.holds
  rw [OlmList.toList_erase list live] at holds
  exact ⟨after, erased, holds⟩

/-- What one call does to the slots, it does to the sequence. -/
theorem Represents.call (represents : Represents maxSize object list) (slots : 1 ≤ maxSize) (enough : maxSize ≤ turns)
    {next : ListCall α} (fits : BoundedSequence.Fits list.toList next) :
    ∃ after list', object.call maxSize turns next = some after ∧ Represents maxSize after list' ∧
      list'.toList = BoundedSequence.call maxSize list.toList next := by
  cases next with
  | insert pos value =>
    have inside : pos ≤ list.size := by
      rw [← OlmList.length_toList]
      exact fits
    obtain ⟨after, inserted, stands⟩ := represents_insert represents inside slots enough value
    exact ⟨after, _, by rw [ListObject.call, inserted]; rfl, stands, toList_insert_eq list inside slots value⟩
  | erase pos =>
    have live : pos < list.size := by
      rw [← OlmList.length_toList]
      exact fits
    obtain ⟨after, erased, stands⟩ := represents_erase represents live enough
    exact ⟨after, _, erased, stands, OlmList.toList_erase list live⟩

theorem Represents.run (represents : Represents maxSize object list) (slots : 1 ≤ maxSize) (enough : maxSize ≤ turns)
    {calls : List (ListCall α)} (allowed : BoundedSequence.Allowed maxSize list.toList calls) :
    ∃ after list', object.run maxSize turns calls = some after ∧ Represents maxSize after list' ∧
      list'.toList = calls.foldl (BoundedSequence.call maxSize) list.toList := by
  induction calls generalizing object list with
  | nil => exact ⟨object, list, rfl, represents, rfl⟩
  | cons next calls ih =>
    obtain ⟨fits, rest⟩ := allowed
    obtain ⟨middle, list', called, stands, same⟩ := represents.call slots enough fits
    rw [← same] at rest
    obtain ⟨after, list'', ran, stands', same'⟩ := ih stands rest
    refine ⟨after, list'', ?_, stands', by rw [same', same]; rfl⟩
    rw [ListObject.run, List.foldlM_cons, called]
    exact ran

/-- Whatever the capacity and whatever was called so far: the list is the bounded sequence that the calls make of the
empty one, and so it stays with the next call, whose loops end. -/
theorem bounded_sequence (slots : 1 ≤ maxSize) (enough : maxSize ≤ turns) (memory : Int → α)
    {calls : List (ListCall α)} (allowed : BoundedSequence.Allowed maxSize [] calls) :
    ∃ object, (new memory).run maxSize turns calls = some object ∧
      let xs := calls.foldl (BoundedSequence.call maxSize) []
      Holds maxSize object xs ∧
      (∀ pos ≤ xs.length, ∀ value, Inserts maxSize turns object xs pos value) ∧
      ∀ pos < xs.length, Erases maxSize turns object xs pos := by
  have start : Represents maxSize (new memory) _ := represents_new memory
  obtain ⟨object, list, ran, represents, same⟩ := start.run slots enough (by rw [OlmList.toList_new]; exact allowed)
  rw [OlmList.toList_new] at same
  refine ⟨object, ran, ?_⟩
  dsimp only
  rw [← same]
  exact ⟨represents.holds, fun pos inside value => represents.inserts slots enough inside value,
    fun pos live => represents.erases enough live⟩

/-- Four elements are put at the end of a list for three, and the first is removed. -/
theorem bounded_sequence_three :
    ∃ object, (new fun _ => 0).run 3 3 [.insert 0 7, .insert 1 8, .insert 2 9, .insert 3 10, .erase 0] = some object ∧
      Holds 3 object [8, 10] := by
  have allowed : BoundedSequence.Allowed 3 []
      [.insert 0 7, .insert 1 8, .insert 2 9, .insert 3 10, .erase 0] := by
    simp [BoundedSequence.Allowed, BoundedSequence.Fits, BoundedSequence.call, BoundedSequence.insert]
  obtain ⟨object, ran, holds, -⟩ := bounded_sequence (by decide) (Nat.le_refl 3) (fun _ => 0) allowed
  exact ⟨object, ran, holds⟩

end ListObject

end RubyOlm
