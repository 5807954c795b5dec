import RubyOlm.Basic

/-!
# Values of the Ruby interpreter

What the C functions of an extension see of them: the class, and how the value is laid out, which the class decides. A C
function raises, returns, or does what has no meaning: it reads the bytes of something that is no string, or takes one
native struct for another. `Data_Get_Struct` raises for values without a native struct and does not look at which it is.
-/

namespace RubyOlm.Ruby

/-- The native structs behind objects: the three of this extension, and those of others. -/
inductive Native where
  | account
  | session
  | utility
  | foreign
  deriving DecidableEq

inductive Layout where
  | plain
  | string
  | hash
  | data (native : Native)
  deriving DecidableEq

/-- The classes that matter here, and classes that inherit from them. `foreign` has objects with a native struct of
another extension. -/
inductive RubyClass where
  | object
  | string
  | hash
  | foreign
  | account
  | session
  | outboundSession
  | inboundSession
  | utility
  | olmMessage
  | message
  | preKeyMessage
  | subclass (parent : RubyClass) (name : String)
  deriving DecidableEq

namespace RubyClass

def ancestors : RubyClass → List RubyClass
  | .object => [.object]
  | .outboundSession => [.outboundSession, .session, .object]
  | .inboundSession => [.inboundSession, .session, .object]
  | .message => [.message, .olmMessage, .object]
  | .preKeyMessage => [.preKeyMessage, .olmMessage, .object]
  | .subclass parent name => .subclass parent name :: ancestors parent
  | known => [known, .object]

/-- What the allocator makes, which is inherited. -/
def layout : RubyClass → Layout
  | .object | .olmMessage | .message | .preKeyMessage => .plain
  | .string => .string
  | .hash => .hash
  | .foreign => .data .foreign
  | .account => .data .account
  | .session | .outboundSession | .inboundSession => .data .session
  | .utility => .data .utility
  | .subclass parent _ => layout parent

/-- The class that a native struct belongs to. -/
def ofNative : Native → RubyClass
  | .account => .account
  | .session => .session
  | .utility => .utility
  | .foreign => .foreign

theorem layout_of_string {cls : RubyClass} : .string ∈ cls.ancestors ↔ cls.layout = .string := by
  induction cls with
  | subclass parent name ih => simp [ancestors, layout, ih]
  | _ => decide

theorem layout_of_native {cls : RubyClass} (native : Native) :
    ofNative native ∈ cls.ancestors ↔ cls.layout = .data native := by
  induction cls with
  | subclass parent name ih => cases native <;> simp_all [ancestors, layout, ofNative]
  | _ => cases native <;> decide

theorem session_of_subclass {cls : RubyClass}
    (either : .outboundSession ∈ cls.ancestors ∨ .inboundSession ∈ cls.ancestors) : .session ∈ cls.ancestors := by
  induction cls with
  | subclass parent name ih =>
    simp only [ancestors, List.mem_cons, reduceCtorEq, false_or] at either ⊢
    exact ih either
  | _ => revert either; decide

end RubyClass

/-- A value. A hash answers for the keys `:pickle` and `:password`, and an object for `to_s`, which may raise. -/
inductive Value where
  | nil
  | boolean (value : Bool)
  | integer (value : Int)
  | string (cls : RubyClass) (isString : cls.layout = .string) (bytes : Bytes)
  | hash (cls : RubyClass) (isHash : cls.layout = .hash) (pickle password : Value)
  | data (cls : RubyClass) (native : Native) (isData : cls.layout = .data native)
  | object (cls : RubyClass) (isPlain : cls.layout = .plain) (toS : Option Value)

namespace Value

def ancestors : Value → List RubyClass
  | .nil | .boolean _ | .integer _ => [.object]
  | .string cls _ _ | .hash cls _ _ _ | .data cls _ _ | .object cls _ _ => cls.ancestors

/-- `rb_obj_is_kind_of` -/
def kindOf (value : Value) (cls : RubyClass) : Bool := cls ∈ value.ancestors

/-- `rb_obj_is_instance_of` -/
def instanceOf (value : Value) (cls : RubyClass) : Bool := value.ancestors.head? = some cls

def isNil : Value → Bool
  | .nil => true
  | _ => false

/-- `rb_str_new` -/
def newString (bytes : Bytes) : Value := .string .string rfl bytes

theorem kindOf_session {value : Value} (either : value.kindOf .outboundSession ∨ value.kindOf .inboundSession) :
    value.kindOf .session := by
  have cls : ∃ cls : RubyClass, value.ancestors = cls.ancestors := by
    cases value with
    | string cls _ _ | hash cls _ _ _ | data cls _ _ | object cls _ _ => exact ⟨cls, rfl⟩
    | _ => exact ⟨.object, rfl⟩
  obtain ⟨cls, same⟩ := cls
  simp only [kindOf, same, decide_eq_true_eq] at either ⊢
  exact RubyClass.session_of_subclass either

theorem kindOf_string_iff {value : Value} :
    value.kindOf .string ↔ ∃ cls isString bytes, value = .string cls isString bytes := by
  unfold kindOf
  rw [decide_eq_true_iff]
  constructor
  · intro kind
    cases value with
    | string cls isString bytes => exact ⟨cls, isString, bytes, rfl⟩
    | hash cls isHash pickle password => cases isHash.symm.trans (RubyClass.layout_of_string.mp kind)
    | data cls native isData => cases isData.symm.trans (RubyClass.layout_of_string.mp kind)
    | object cls isPlain toS => cases isPlain.symm.trans (RubyClass.layout_of_string.mp kind)
    | _ => simp [ancestors] at kind
  · rintro ⟨cls, isString, bytes, rfl⟩
    exact RubyClass.layout_of_string.mpr isString

theorem kindOf_native_iff {value : Value} {native : Native} :
    value.kindOf (.ofNative native) ↔ ∃ cls isData, value = .data cls native isData := by
  unfold kindOf
  rw [decide_eq_true_iff]
  constructor
  · intro kind
    cases value with
    | string cls isString bytes => cases isString.symm.trans ((RubyClass.layout_of_native native).mp kind)
    | hash cls isHash pickle password => cases isHash.symm.trans ((RubyClass.layout_of_native native).mp kind)
    | data cls found isData =>
      cases isData.symm.trans ((RubyClass.layout_of_native native).mp kind)
      exact ⟨cls, isData, rfl⟩
    | object cls isPlain toS => cases isPlain.symm.trans ((RubyClass.layout_of_native native).mp kind)
    | _ => cases native <;> simp [ancestors, RubyClass.ofNative] at kind
  · rintro ⟨cls, isData, rfl⟩
    exact (RubyClass.layout_of_native native).mpr isData

end Value

/-! ### What a C function comes to -/

inductive Outcome (α : Type) where
  | returned (value : α)
  | raised
  | undefined

namespace Outcome

variable {α β : Type}

protected def bind : Outcome α → (α → Outcome β) → Outcome β
  | .returned value, next => next value
  | .raised, _ => .raised
  | .undefined, _ => .undefined

instance : Monad Outcome where
  pure := .returned
  bind := Outcome.bind

@[simp] theorem returned_bind (value : α) (next : α → Outcome β) : (returned value >>= next) = next value := rfl

@[simp] theorem raised_bind (next : α → Outcome β) : (raised >>= next) = raised := rfl

@[simp] theorem undefined_bind (next : α → Outcome β) : (undefined >>= next) = undefined := rfl

/-- It raises or returns. -/
def Defined (outcome : Outcome α) : Prop := outcome ≠ .undefined

@[simp] theorem defined_pure (value : α) : (pure value : Outcome α).Defined := fun impossible => nomatch impossible

@[simp] theorem defined_returned (value : α) : (returned value).Defined := fun impossible => nomatch impossible

@[simp] theorem defined_raised : (raised : Outcome α).Defined := fun impossible => nomatch impossible

@[simp] theorem not_defined_undefined : ¬ (undefined : Outcome α).Defined := fun defined => defined rfl

/-- What comes next counts only after a return. -/
theorem defined_bind (outcome : Outcome α) (next : α → Outcome β) :
    (outcome >>= next).Defined ↔ outcome.Defined ∧ ∀ value, outcome = .returned value → (next value).Defined := by
  cases outcome with
  | returned value =>
    refine ⟨fun defined => ⟨defined_returned value, fun _ same => ?_⟩, fun defined => defined.2 value rfl⟩
    obtain rfl := returned.inj same
    exact defined
  | raised => exact ⟨fun _ => ⟨defined_raised, fun _ same => (nomatch same)⟩, fun _ => defined_raised⟩
  | undefined => exact ⟨fun defined => absurd rfl defined, fun defined => absurd rfl defined.1⟩

end Outcome

/-! ### Access -/

open Outcome

/-- `RSTRING_PTR` and `RSTRING_LEN` -/
def rstring : Value → Outcome Bytes
  | .string _ _ bytes => .returned bytes
  | _ => .undefined

/-- `Data_Get_Struct`, for the struct that the caller takes it for. -/
def dataGetStruct (value : Value) (native : Native) : Outcome Unit :=
  match value with
  | .data _ found _ => if found = native then .returned () else .undefined
  | _ => .raised

/-- A check of `rb_obj_is_kind_of` that raises a `TypeError`. -/
def checkKind (value : Value) (cls : RubyClass) : Outcome Unit :=
  if value.kindOf cls then .returned () else .raised

/-- `rb_funcall(value, rb_intern("to_s"), 0)`, of an object. -/
def toS : Value → Outcome Value
  | .object _ _ (some answer) => .returned answer
  | _ => .raised

/-- The value is no object with a native struct of another class. -/
def NotMistaken (value : Value) (native : Native) : Prop :=
  ∀ cls found isData, value = .data cls found isData → value.kindOf (.ofNative native)

theorem defined_rstring_iff {value : Value} : (rstring value).Defined ↔ value.kindOf .string := by
  rw [Value.kindOf_string_iff]
  cases value with
  | string cls isString bytes => exact ⟨fun _ => ⟨cls, isString, bytes, rfl⟩, fun _ => defined_returned _⟩
  | _ => exact ⟨fun defined => absurd rfl defined, fun ⟨_, _, _, same⟩ => (nomatch same)⟩

theorem dataGetStruct_eq_returned_iff {value : Value} {native : Native} {done : Unit} :
    dataGetStruct value native = .returned done ↔ value.kindOf (.ofNative native) := by
  rw [Value.kindOf_native_iff]
  constructor
  · intro unwrapped
    unfold dataGetStruct at unwrapped
    split at unwrapped
    · rename_i cls found isData
      split at unwrapped
      · rename_i same
        subst same
        exact ⟨cls, isData, rfl⟩
      · cases unwrapped
    · cases unwrapped
  · rintro ⟨cls, isData, rfl⟩
    exact if_pos rfl

theorem defined_dataGetStruct_iff {value : Value} {native : Native} :
    (dataGetStruct value native).Defined ↔ NotMistaken value native := by
  cases value with
  | data cls found isData =>
    have belongs : (Value.data cls found isData).kindOf (.ofNative native) ↔ found = native := by
      rw [Value.kindOf, decide_eq_true_iff]
      refine (RubyClass.layout_of_native native).trans ?_
      rw [isData, Layout.data.injEq]
    simp only [dataGetStruct]
    constructor
    · intro defined _ _ _ _
      rw [belongs]
      by_contra other
      rw [if_neg other] at defined
      exact defined rfl
    · intro kept
      rw [if_pos (belongs.mp (kept _ _ _ rfl))]
      exact defined_returned ()
  | _ => exact ⟨fun _ _ _ _ same => (nomatch same), fun _ => defined_raised⟩

@[simp] theorem defined_checkKind (value : Value) (cls : RubyClass) : (checkKind value cls).Defined := by
  unfold checkKind
  split <;> simp

theorem checkKind_eq_returned_iff {value : Value} {cls : RubyClass} {done : Unit} :
    checkKind value cls = .returned done ↔ value.kindOf cls := by
  unfold checkKind
  split <;> simp_all

@[simp] theorem defined_toS (value : Value) : (toS value).Defined := by
  unfold toS
  split <;> simp

end RubyOlm.Ruby
