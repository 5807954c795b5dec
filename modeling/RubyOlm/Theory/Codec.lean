import Mathlib.Data.List.Basic

/-!
# Codecs

Values written one behind the other, and read again into values that are there already. A reader takes what it needs
off the front of what is left, so codecs of the parts of a value make one of the whole.
-/

namespace RubyOlm

/-- `length` is what is announced before anything is written. -/
structure Codec (Byte α : Type) where
  length : α → Nat
  write : α → List Byte
  read : (rest : List Byte) → (old : α) → List Byte × α

namespace Codec

variable {Byte α β : Type}

/-- The announced length is right, and what was written is read again, whatever comes behind it and whatever was there
before. -/
structure Lawful (codec : Codec Byte α) : Prop where
  length_write : ∀ value, (codec.write value).length = codec.length value
  read_write : ∀ value rest old, codec.read (codec.write value ++ rest) old = (rest, value)

/-- The same for a reader that needs a fresh value to read into, and for what values have in common once one was written
and the other read. -/
structure Restores (codec : Codec Byte α) (Fresh : α → Prop) (Same : α → α → Prop) : Prop where
  length_write : ∀ value, (codec.write value).length = codec.length value
  read_write : ∀ {old}, Fresh old → ∀ value rest,
    ∃ restored, codec.read (codec.write value ++ rest) old = (rest, restored) ∧ Same value restored

def pair (first : Codec Byte α) (second : Codec Byte β) : Codec Byte (α × β) where
  length value := first.length value.1 + second.length value.2
  write value := first.write value.1 ++ second.write value.2
  read rest old :=
    let (rest, left) := first.read rest old.1
    let (rest, right) := second.read rest old.2
    (rest, (left, right))

/-- A codec of the parts of a value, for the value. -/
def via (codec : Codec Byte β) (parts : α → β) (build : β → α) : Codec Byte α where
  length value := codec.length (parts value)
  write value := codec.write (parts value)
  read rest old :=
    let (rest, value) := codec.read rest (parts old)
    (rest, build value)

theorem Lawful.pair {first : Codec Byte α} {second : Codec Byte β} (first_lawful : first.Lawful)
    (second_lawful : second.Lawful) : (first.pair second).Lawful where
  length_write value := by
    simp only [Codec.pair, List.length_append, first_lawful.length_write, second_lawful.length_write]
  read_write value rest old := by
    simp only [Codec.pair, List.append_assoc, first_lawful.read_write, second_lawful.read_write]

theorem Lawful.via {codec : Codec Byte β} (lawful : codec.Lawful) {parts : α → β} {build : β → α}
    (whole : ∀ value, build (parts value) = value) : (codec.via parts build).Lawful where
  length_write value := lawful.length_write (parts value)
  read_write value rest old := by
    simp only [Codec.via, lawful.read_write, whole]

end Codec

end RubyOlm
