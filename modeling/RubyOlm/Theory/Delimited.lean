import Mathlib.Computability.Language
import RubyOlm.Theory.Codec

/-!
# Delimited readers

A reader whose words say themselves where they end: it takes one off the front of what is left, whatever follows it,
and where there is none it leaves nothing. So what it leaves tells whether exactly a word was there.
-/

namespace RubyOlm

variable {Byte α β : Type}

structure Delimited (read : List Byte → List Byte × α) (words : Language Byte) : Prop where
  reads : ∀ {word}, word ∈ words → ∃ value, ∀ tail, read (word ++ tail) = (tail, value)
  stops : ∀ {rest}, (∀ word ∈ words, ¬ word <+: rest) → (read rest).1 = []

/-- All words of one length. -/
def ofLength (Byte : Type) (length : Nat) : Language Byte := {word | word.length = length}

theorem mem_ofLength {length : Nat} {word : List Byte} : word ∈ ofLength Byte length ↔ word.length = length := Iff.rfl

namespace Delimited

variable {read : List Byte → List Byte × α} {words : Language Byte}

theorem of_read {read' : List Byte → List Byte × α} (delimited : Delimited read words) (same : read' = read) :
    Delimited read' words := same ▸ delimited

theorem read_append (delimited : Delimited read words) {word : List Byte} (mem : word ∈ words) (tail : List Byte) :
    read (word ++ tail) = (tail, (read word).2) := by
  obtain ⟨value, reads⟩ := delimited.reads mem
  have alone := reads []
  rw [List.append_nil] at alone
  rw [reads, alone]

theorem read_nil (delimited : Delimited read words) : (read []).1 = [] := by
  by_cases mem : [] ∈ words
  · exact congrArg Prod.fst (delimited.read_append mem [])
  · refine delimited.stops fun word known front => mem ?_
    rwa [← List.prefix_nil.mp front]

/-- No word starts with another one. -/
theorem eq_of_front (delimited : Delimited read words) {word longer : List Byte} (mem : word ∈ words)
    (mem' : longer ∈ words) (front : word <+: longer) : word = longer := by
  obtain ⟨tail, rfl⟩ := front
  have whole := delimited.read_append mem' []
  rw [List.append_nil, delimited.read_append mem tail] at whole
  rw [(Prod.mk.inj whole).1, List.append_nil]

/-- One more byte than a word is left over as it is. -/
theorem leaves_one_iff (delimited : Delimited read words) (body : List Byte) (next : Byte) :
    (read (body ++ [next])).1.length = 1 ↔ body ∈ words := by
  constructor
  · intro one
    by_cases found : ∃ word ∈ words, word <+: body ++ [next]
    · obtain ⟨word, mem, tail, same⟩ := found
      rw [← same, delimited.read_append mem] at one
      obtain ⟨last, rfl⟩ := List.length_eq_one_iff.mp one
      rwa [← (List.append_inj' same rfl).1]
    · rw [delimited.stops fun word mem front => found ⟨word, mem, front⟩] at one
      cases one
  · intro mem
    rw [delimited.read_append mem]
    rfl

theorem map (delimited : Delimited read words) (f : α → β) :
    Delimited (fun rest => let (rest, value) := read rest; (rest, f value)) words where
  reads mem := by
    obtain ⟨value, reads⟩ := delimited.reads mem
    exact ⟨f value, fun tail => by rw [reads]⟩
  stops none := delimited.stops none

theorem of_failing (failing : ∀ rest, (read rest).1 = []) : Delimited read 0 where
  reads mem := absurd mem (Language.notMem_zero _)
  stops _ := failing _

/-- A reader, and then one that may depend on what was read. -/
theorem bind {next : α → List Byte → List Byte × β} {nextWords : α → Language Byte} (delimited : Delimited read words)
    (then_delimited : ∀ value, Delimited (next value) (nextWords value)) :
    Delimited (fun rest => let (rest, value) := read rest; next value rest)
      {body | ∃ word ∈ words, ∃ tail ∈ nextWords (read word).2, word ++ tail = body} where
  reads := by
    rintro _ ⟨word, mem, tail, tail_mem, rfl⟩
    obtain ⟨value, reads⟩ := (then_delimited (read word).2).reads tail_mem
    refine ⟨value, fun rest => ?_⟩
    rw [List.append_assoc, delimited.read_append mem]
    exact reads rest
  stops := by
    intro rest none
    by_cases found : ∃ word ∈ words, word <+: rest
    · obtain ⟨word, mem, left, rfl⟩ := found
      rw [delimited.read_append mem]
      refine (then_delimited (read word).2).stops fun tail tail_mem front => ?_
      exact none _ ⟨word, mem, tail, tail_mem, rfl⟩ ((List.prefix_append_right_inj word).mpr front)
    · have stopped := delimited.stops fun word mem front => found ⟨word, mem, front⟩
      rcases taken : read rest with ⟨left, value⟩
      rw [taken] at stopped
      obtain rfl : left = [] := stopped
      exact (then_delimited value).read_nil

theorem seq {next : α → List Byte → List Byte × β} {nextWords : Language Byte} (delimited : Delimited read words)
    (then_delimited : ∀ value, Delimited (next value) nextWords) :
    Delimited (fun rest => let (rest, value) := read rest; next value rest) (words * nextWords) := by
  have both := delimited.bind then_delimited
  exact both

end Delimited

namespace Codec

/-- Reading a word gives a value that does not depend on the one that was there. -/
structure Fills (codec : Codec Byte α) (words : Language Byte) : Prop where
  reads : ∀ {word}, word ∈ words → ∃ value, ∀ old tail, codec.read (word ++ tail) old = (tail, value)
  stops : ∀ {rest}, (∀ word ∈ words, ¬ word <+: rest) → ∀ old, (codec.read rest old).1 = []

variable {codec : Codec Byte α} {words : Language Byte}

theorem Fills.delimited (fills : codec.Fills words) (old : α) : Delimited (codec.read · old) words where
  reads mem := by
    obtain ⟨value, reads⟩ := fills.reads mem
    exact ⟨value, reads old⟩
  stops none := fills.stops none old

theorem Fills.read_eq (fills : codec.Fills words) {word : List Byte} (mem : word ∈ words) (tail : List Byte)
    (old blank : α) : codec.read (word ++ tail) old = (tail, (codec.read word blank).2) := by
  obtain ⟨value, reads⟩ := fills.reads mem
  have alone := reads blank []
  rw [List.append_nil] at alone
  rw [reads, alone]

theorem Fills.of_read {codec' : Codec Byte α} (fills : codec.Fills words) (same : codec'.read = codec.read) :
    codec'.Fills words where
  reads := by
    rw [same]
    exact fills.reads
  stops := by
    rw [same]
    exact fills.stops

theorem Fills.via {codec : Codec Byte β} (fills : codec.Fills words) (parts : α → β) (build : β → α) :
    (codec.via parts build).Fills words where
  reads mem := by
    obtain ⟨value, reads⟩ := fills.reads mem
    exact ⟨build value, fun old tail => by simp only [Codec.via, reads]⟩
  stops none old := fills.stops none (parts old)

theorem Fills.pair {second : Codec Byte β} {nextWords : Language Byte} (fills : codec.Fills words)
    (second_fills : second.Fills nextWords) : (codec.pair second).Fills (words * nextWords) where
  reads := by
    rintro _ ⟨word, mem, tail, tail_mem, rfl⟩
    obtain ⟨left, reads⟩ := fills.reads mem
    obtain ⟨right, reads'⟩ := second_fills.reads tail_mem
    refine ⟨(left, right), fun old rest => ?_⟩
    simp only [Codec.pair, List.append_assoc, reads, reads']
  stops none old :=
    ((fills.delimited old.1).seq fun _ => second_fills.delimited old.2).stops none

end Codec

end RubyOlm
