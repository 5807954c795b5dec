import RubyOlm.Theory.Memory

/-!
# Bytes side by side

Programs that put pieces into a buffer, each at a place of its own. Pieces that lie side by side fill a range of the
buffer, in whatever order they are put there.
-/

namespace RubyOlm

/-- The parts in a row, the first at `pos`, each with its place. -/
def laid : (pos : Nat) → (parts : List (List UInt8)) → List (Nat × List UInt8)
  | _, [] => []
  | pos, part :: parts => (pos, part) :: laid (pos + part.length) parts

theorem le_of_mem_laid {pos : Nat} {parts : List (List UInt8)} {piece : Nat × List UInt8}
    (mem : piece ∈ laid pos parts) : pos ≤ piece.1 := by
  induction parts generalizing pos with
  | nil => cases mem
  | cons part parts ih =>
    rcases List.mem_cons.mp mem with rfl | mem
    · exact Nat.le_refl pos
    · exact Nat.le_trans (Nat.le_add_right pos _) (ih mem)

theorem pairwise_laid (pos : Nat) (parts : List (List UInt8)) :
    (laid pos parts).Pairwise fun first second => first.1 + first.2.length ≤ second.1 := by
  induction parts generalizing pos with
  | nil => exact List.Pairwise.nil
  | cons part parts ih => exact List.Pairwise.cons (fun piece mem => le_of_mem_laid mem) (ih _)

theorem laid_append (pos : Nat) (parts parts' : List (List UInt8)) :
    laid pos (parts ++ parts') = laid pos parts ++ laid (pos + parts.flatten.length) parts' := by
  induction parts generalizing pos with
  | nil => rfl
  | cons part parts ih =>
    rw [List.cons_append, laid, laid, ih, List.flatten_cons, List.length_append, ← Nat.add_assoc, List.cons_append]

/-- Pieces that lie side by side from `pos` on, in whatever order they are listed, and are these bytes together. -/
def SideBySide (pos : Nat) (pieces : List (Nat × List UInt8)) (bytes : List UInt8) : Prop :=
  ∃ parts : List (List UInt8), parts.flatten = bytes ∧ pieces.Perm (laid pos parts)

theorem sideBySide_one (pos : Nat) (bytes : List UInt8) : SideBySide pos [(pos, bytes)] bytes :=
  ⟨[bytes], List.flatten_singleton, List.Perm.refl _⟩

theorem SideBySide.append {pos : Nat} {pieces pieces' : List (Nat × List UInt8)} {bytes bytes' : List UInt8}
    (first : SideBySide pos pieces bytes) (second : SideBySide (pos + bytes.length) pieces' bytes') :
    SideBySide pos (pieces ++ pieces') (bytes ++ bytes') := by
  obtain ⟨parts, rfl, perm⟩ := first
  obtain ⟨parts', rfl, perm'⟩ := second
  refine ⟨parts ++ parts', List.flatten_append, ?_⟩
  rw [laid_append]
  exact perm.append perm'

variable {B : Type}

theorem covers_laid {P : Access B → Prop} {kind : AccessKind} (p : Pointer B) (pos : Nat)
    (parts : List (List UInt8)) : (∀ piece ∈ laid pos parts, Covers P kind (p + piece.1) piece.2.length) ↔
      Covers P kind (p + pos) parts.flatten.length := by
  induction parts generalizing pos with
  | nil =>
    constructor
    · intro _
      exact covers_zero
    · intro _ piece none
      cases none
  | cons part parts ih =>
    rw [laid, List.forall_mem_cons, ih, List.flatten_cons, List.length_append, covers_add, Pointer.add_add]

theorem covers_sideBySide {P : Access B → Prop} {kind : AccessKind} (p : Pointer B) {pos : Nat}
    {pieces : List (Nat × List UInt8)} {bytes : List UInt8} (beside : SideBySide pos pieces bytes) :
    (∀ piece ∈ pieces, Covers P kind (p + piece.1) piece.2.length) ↔ Covers P kind (p + pos) bytes.length := by
  obtain ⟨parts, rfl, perm⟩ := beside
  rw [← covers_laid]
  exact forall_congr' fun piece => imp_congr_left perm.mem_iff

namespace Memory

variable [DecidableEq B]

theorem write_congr {memory memory' : Memory B} (p : Pointer B) (bytes : List UInt8) {place : Pointer B}
    (same : memory place = memory' place) : memory.write p bytes place = memory'.write p bytes place := by
  rw [write, write, same]

theorem write_comm (memory : Memory B) {p q : Pointer B} {bytes bytes' : List UInt8}
    (apart : Apart p bytes.length q bytes'.length) :
    (memory.write p bytes).write q bytes' = (memory.write q bytes').write p bytes := by
  funext place
  by_cases outside : Apart p bytes.length place 1
  · rw [write_apart _ outside, write_congr q bytes' (write_apart memory outside)]
  · have outside' : Apart q bytes'.length place 1 := by
      intro same
      unfold Apart at outside apart
      rw [Classical.not_imp] at outside
      obtain ⟨block, inside⟩ := outside
      have := apart (block.trans same.symm)
      omega
    rw [write_apart _ outside', write_congr p bytes (write_apart memory outside')]

/-- Pieces put one after the other, each at its distance from `p`. -/
def writeAll (memory : Memory B) (p : Pointer B) (pieces : List (Nat × List UInt8)) : Memory B :=
  pieces.foldl (fun memory piece => memory.write (p + piece.1) piece.2) memory

theorem writeAll_append (memory : Memory B) (p : Pointer B) (pieces pieces' : List (Nat × List UInt8)) :
    memory.writeAll p (pieces ++ pieces') = (memory.writeAll p pieces).writeAll p pieces' :=
  List.foldl_append ..

theorem writeAll_laid (memory : Memory B) (p : Pointer B) (pos : Nat) (parts : List (List UInt8)) :
    memory.writeAll p (laid pos parts) = memory.write (p + pos) parts.flatten := by
  induction parts generalizing memory pos with
  | nil => exact (write_nil memory _).symm
  | cons part parts ih =>
    rw [List.flatten_cons, write_append, Pointer.add_add, ← ih]
    rfl

/-- The order in which pieces are put side by side makes no difference. -/
theorem writeAll_of_sideBySide (memory : Memory B) (p : Pointer B) {pos : Nat} {pieces : List (Nat × List UInt8)}
    {bytes : List UInt8} (beside : SideBySide pos pieces bytes) :
    memory.writeAll p pieces = memory.write (p + pos) bytes := by
  obtain ⟨parts, rfl, perm⟩ := beside
  have commute : (laid pos parts).Pairwise fun first second => ∀ memory : Memory B,
      (memory.write (p + first.1) first.2).write (p + second.1) second.2 =
        (memory.write (p + second.1) second.2).write (p + first.1) first.2 := by
    apply (pairwise_laid pos parts).imp
    intro first second before memory
    apply write_comm
    intro _
    left
    rw [Pointer.index_add, Pointer.index_add]
    omega
  have all := List.Pairwise.forall_of_forall_of_flip (fun _ _ _ => rfl) commute
    (commute.imp fun same memory => (same memory).symm)
  rw [← writeAll_laid]
  apply perm.foldl_eq'
  intro piece mem piece' mem' memory
  exact all (perm.mem_iff.mp mem) (perm.mem_iff.mp mem') memory

end Memory

namespace Prog

variable [DecidableEq B] {Result Result' : Type} {x : Prog B Result} {memory : Memory B} {p : Pointer B}
  {pieces pieces' : List (Nat × List UInt8)}

/-- The run puts these pieces into memory, one after the other, and writes nowhere else. -/
structure Lays (x : Prog B Result) (memory : Memory B) (p : Pointer B) (pieces : List (Nat × List UInt8)) : Prop where
  leaves : (x memory).memory = memory.writeAll p pieces
  within : ∀ {P : Access B → Prop}, (∀ place, P ⟨.read, place⟩) →
    (x.Within memory P ↔ ∀ piece ∈ pieces, Covers P .write (p + piece.1) piece.2.length)

theorem lays_pure (value : Result) (memory : Memory B) (p : Pointer B) :
    (pure value : Prog B Result).Lays memory p [] where
  leaves := rfl
  within _ := ⟨fun _ _ none => (nomatch none), fun _ => within_pure _ _⟩

theorem lays_loadBytes (q : Pointer B) (length : Nat) (memory : Memory B) (p : Pointer B) :
    (loadBytes q length).Lays memory p [] where
  leaves := rfl
  within reads := ⟨fun _ _ none => (nomatch none), fun _ => (within_loadBytes ..).mpr (covers_read reads)⟩

theorem lays_storeBytes (memory : Memory B) (p : Pointer B) (pos : Nat) (bytes : List UInt8) :
    (storeBytes (p + pos) bytes).Lays memory p [(pos, bytes)] where
  leaves := rfl
  within _ := by rw [within_storeBytes, List.forall_mem_singleton]

theorem lays_store (memory : Memory B) (p : Pointer B) (pos : Nat) (byte : UInt8) :
    (store (p + pos) byte).Lays memory p [(pos, [byte])] where
  leaves := rfl
  within {P} _ := by
    rw [within_store, List.forall_mem_singleton]
    show P ⟨.write, p + pos⟩ ↔ Covers P .write (p + pos) (0 + 1)
    rw [covers_succ, Pointer.add_zero]
    exact ⟨fun written => ⟨covers_zero, written⟩, And.right⟩

theorem lays_store_start (memory : Memory B) (p : Pointer B) (byte : UInt8) :
    (store p byte).Lays memory p [(0, [byte])] := by
  have lays := lays_store memory p 0 byte
  rwa [Pointer.add_zero] at lays

theorem Lays.bind {next : Result → Prog B Result'} (first : x.Lays memory p pieces)
    (second : (next (x memory).value).Lays (x memory).memory p pieces') :
    (x >>= next).Lays memory p (pieces ++ pieces') where
  leaves := by rw [memory_bind, second.leaves, first.leaves, Memory.writeAll_append]
  within reads := by rw [within_bind, first.within reads, second.within reads, List.forall_mem_append]

theorem Lays.then_pure (lays : x.Lays memory p pieces) (f : Result → Result') :
    (x >>= fun value => pure (f value)).Lays memory p pieces where
  leaves := lays.leaves
  within reads := by
    rw [within_bind, lays.within reads]
    simp only [within_pure, and_true]

/-- Two pieces side by side, one put right after the other, are one. -/
theorem Lays.join (before : List (Nat × List UInt8)) {pos : Nat} {bytes bytes' : List UInt8}
    (lays : x.Lays memory p (before ++ [(pos, bytes), (pos + bytes.length, bytes')])) :
    x.Lays memory p (before ++ [(pos, bytes ++ bytes')]) where
  leaves := by
    rw [lays.leaves, Memory.writeAll_append, Memory.writeAll_append]
    show Memory.write (Memory.write _ (p + pos) bytes) (p + (pos + bytes.length)) bytes' =
      Memory.write _ (p + pos) (bytes ++ bytes')
    rw [Memory.write_append, Pointer.add_add]
  within reads := by
    rw [lays.within reads, List.forall_mem_append, List.forall_mem_append, List.forall_mem_cons,
      List.forall_mem_singleton, List.forall_mem_singleton, List.length_append, covers_add, Pointer.add_add]

theorem Lays.fills {bytes : List UInt8} (lays : x.Lays memory p pieces) (beside : SideBySide 0 pieces bytes) :
    (x memory).memory = memory.write p bytes := by
  rw [lays.leaves, Memory.writeAll_of_sideBySide memory p beside, Pointer.add_zero]

/-- What the run writes are these parts, side by side from `p` on, and their length is the one that was expected. -/
structure Tiles (x : Prog B Result) (memory : Memory B) (p : Pointer B) (length : Nat)
    (parts : List (List UInt8)) : Prop where
  fits : parts.flatten.length = length
  leaves : (x memory).memory = memory.write p parts.flatten
  writes : x.Writes memory p length

theorem Lays.tiles {length : Nat} {parts : List (List UInt8)} (lays : x.Lays memory p pieces)
    (beside : SideBySide 0 pieces parts.flatten) (fits : parts.flatten.length = length) :
    x.Tiles memory p length parts where
  fits := fits
  leaves := lays.fills beside
  writes := by
    apply writes_of_covers
    intro P reads
    have all : _ ↔ Covers P .write (p + 0) _ := covers_sideBySide p beside
    rw [lays.within reads, all, Pointer.add_zero, fits]

/-- What comes before may read, but writes nothing. -/
theorem Lays.then_tiles {next : Result → Prog B Result'} {length : Nat} {parts : List (List UInt8)}
    (first : x.Lays memory p [])
    (second : (next (x memory).value).Tiles memory p length parts) : (x >>= next).Tiles memory p length parts := by
  have unchanged : (x memory).memory = memory := first.leaves
  refine ⟨second.fits, ?_, ?_⟩
  · rw [memory_bind, unchanged, second.leaves]
  · apply writes_of_covers
    intro P reads
    rw [within_bind, first.within reads, unchanged, second.writes.within reads]
    exact and_iff_right fun piece none => nomatch none

/-- Parts that were put side by side are one piece of what is put around them. -/
theorem Tiles.lays {pos length : Nat} {parts : List (List UInt8)} (tiles : x.Tiles memory (p + pos) length parts) :
    x.Lays memory p [(pos, parts.flatten)] where
  leaves := tiles.leaves
  within reads := by
    rw [tiles.writes.within reads, List.forall_mem_singleton, tiles.fits]

end Prog

end RubyOlm
