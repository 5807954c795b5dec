import RubyOlm.Theory.Memory

/-!
# Programs that look through memory

A program that writes nothing, with loops of which each may take so many turns: it comes to no value when these
were too few.
-/

namespace RubyOlm

abbrev Scan (B Result : Type) := OptionT (Prog B) Result

namespace Scan

variable {B Result Result' : Type}

/-- From `memory`, which stays as it is, the program comes to `value` through accesses that `P` allows. -/
structure Ends (x : Scan B Result) (memory : Memory B) (P : Access B → Prop) (value : Result) : Prop where
  returns : (x.run memory).value = some value
  unchanged : (x.run memory).memory = memory
  within : Prog.Within x.run memory P

theorem run_bind (x : Scan B Result) (next : Result → Scan B Result') :
    (x >>= next).run = (x.run >>= fun
      | some value => (next value).run
      | none => pure none) := rfl

namespace Ends

variable {memory : Memory B} {P : Access B → Prop}

theorem pure (value : Result) : Ends (pure value) memory P value where
  returns := rfl
  unchanged := rfl
  within := Prog.within_pure (some value) memory

theorem load {p : Pointer B} (allowed : P ⟨.read, p⟩) : Ends (liftM (Prog.load p) : Scan B UInt8) memory P (memory p) where
  returns := rfl
  unchanged := rfl
  within := by
    intro access read
    rcases List.mem_append.mp read with read | none
    · rw [List.mem_singleton.mp read]
      exact allowed
    · cases none

theorem loadBytes {p : Pointer B} {length : Nat} (allowed : Covers P .read p length) :
    Ends (liftM (Prog.loadBytes p length) : Scan B (List UInt8)) memory P (memory.read p length) where
  returns := rfl
  unchanged := rfl
  within := (Prog.within_bind _ _ _).mpr ⟨(Prog.within_loadBytes _ _ _).mpr allowed, Prog.within_pure _ _⟩

theorem bind {x : Scan B Result} {next : Result → Scan B Result'} {value : Result} {value' : Result'}
    (first : Ends x memory P value) (second : Ends (next value) memory P value') :
    Ends (x >>= next) memory P value' where
  returns := by
    rw [run_bind, Prog.value_bind, first.returns, first.unchanged]
    exact second.returns
  unchanged := by
    rw [run_bind, Prog.memory_bind, first.returns, first.unchanged]
    exact second.unchanged
  within := by
    rw [run_bind, Prog.within_bind, first.returns, first.unchanged]
    exact ⟨first.within, second.within⟩

theorem value_unique {x : Scan B Result} {Q : Access B → Prop} {value value' : Result} (ends : Ends x memory P value)
    (ends' : Ends x memory Q value') : value = value' :=
  Option.some.inj (ends.returns.symm.trans ends'.returns)

end Ends

/-- What the program reads before it goes on is allowed if all that it reads is. -/
theorem Ends.first {p : Pointer B} {next : UInt8 → Scan B Result} {memory : Memory B} {P : Access B → Prop}
    {value : Result} (ends : Ends (liftM (Prog.load p) >>= next) memory P value) : P ⟨.read, p⟩ := by
  have within := ends.within
  rw [run_bind, Prog.within_bind] at within
  exact within.1 _ (List.mem_append_left _ (List.mem_singleton.mpr rfl))

/-! ### After a program that comes to a value -/

variable {memory : Memory B} {P : Access B → Prop}

theorem Ends.value_bind {x : Scan B Result} {next : Result → Scan B Result'} {value : Result} {Q : Access B → Prop}
    (ends : Ends x memory Q value) : ((x >>= next).run memory).value = ((next value).run memory).value := by
  rw [run_bind, Prog.value_bind, ends.returns, ends.unchanged]

theorem Ends.memory_bind {x : Scan B Result} {next : Result → Scan B Result'} {value : Result} {Q : Access B → Prop}
    (ends : Ends x memory Q value) : ((x >>= next).run memory).memory = ((next value).run memory).memory := by
  rw [run_bind, Prog.memory_bind, ends.returns, ends.unchanged]

theorem Ends.within_bind {x : Scan B Result} {next : Result → Scan B Result'} {value : Result} {Q : Access B → Prop}
    (ends : Ends x memory Q value) :
    (x >>= next).run.Within memory P ↔ x.run.Within memory P ∧ (next value).run.Within memory P := by
  rw [run_bind, Prog.within_bind, ends.returns, ends.unchanged]

theorem value_lift {x : Prog B Result} {next : Result → Scan B Result'} :
    ((liftM x >>= next : Scan B Result').run memory).value = ((next (x memory).value).run (x memory).memory).value := rfl

theorem memory_lift {x : Prog B Result} {next : Result → Scan B Result'} :
    ((liftM x >>= next : Scan B Result').run memory).memory = ((next (x memory).value).run (x memory).memory).memory := rfl

theorem within_run_lift {x : Prog B Result} :
    Prog.Within (liftM x : Scan B Result).run memory P ↔ x.Within memory P :=
  (Prog.within_bind _ _ _).trans (and_iff_left (Prog.within_pure _ _))

theorem within_lift {x : Prog B Result} {next : Result → Scan B Result'} :
    Prog.Within (liftM x >>= next : Scan B Result').run memory P ↔
      x.Within memory P ∧ Prog.Within (next (x memory).value).run (x memory).memory P := by
  rw [run_bind, Prog.within_bind, within_run_lift]
  rfl

/-! A write in a program that otherwise only looks. -/

theorem value_storeBytes [DecidableEq B] {p : Pointer B} {bytes : List UInt8} {next : Unit → Scan B Result} :
    ((liftM (Prog.storeBytes p bytes) >>= next : Scan B Result).run memory).value =
      ((next ()).run (memory.write p bytes)).value := value_lift

theorem within_storeBytes [DecidableEq B] {p : Pointer B} {bytes : List UInt8} {next : Unit → Scan B Result} :
    Prog.Within (liftM (Prog.storeBytes p bytes) >>= next : Scan B Result).run memory P ↔
      Covers P .write p bytes.length ∧ Prog.Within (next ()).run (memory.write p bytes) P :=
  within_lift.trans (and_congr_left' (Prog.within_storeBytes _ _ _))

end Scan

/-- Reads of the `length` bytes at `p`. -/
def ReadsIn {B : Type} (p : Pointer B) (length : Nat) (access : Access B) : Prop :=
  access.kind = .read ∧ ∃ i < length, access.place = p + i

theorem readsIn_iff {B : Type} {p : Pointer B} {length i : Nat} : ReadsIn p length ⟨.read, p + i⟩ ↔ i < length := by
  constructor
  · rintro ⟨-, j, lt, same⟩
    have index := congrArg Pointer.index same
    rw [Pointer.index_add, Pointer.index_add] at index
    omega
  · intro lt
    exact ⟨rfl, i, lt, rfl⟩

end RubyOlm
