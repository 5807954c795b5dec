import RubyOlm.Buffers.Pickle
import RubyOlm.Pickle.Exact
import RubyOlm.Session.Atomic

/-!
# Exact pickles in buffers

Accounts, sessions and decryption objects are unpickled from a body that their fields fill, and from no other. The one
byte behind the body, whatever it is, has to be left, and makes no difference.
-/

namespace RubyOlm

open Prog

variable {B : Type} [DecidableEq B] {α : Type} (crypto : Crypto)

namespace Pickle

/-- The body of the pickle in a buffer, which `_olm_enc_input` leaves there. -/
def opened (key : Bytes) (pickled : Pointer B) (pickledLength : Nat) (memory : Memory B) :
    Except OlmErrorCode Bytes :=
  encInput (surrounded crypto pickled pickledLength memory) key (memory.read pickled pickledLength)

variable {crypto} {codec : Codec UInt8 α} {lastError : α → OlmErrorCode} {setError : α → OlmErrorCode → α}
  {key : Bytes} {pickled : Pointer B} {pickledLength : Nat} {memory : Memory B} {object : α}

theorem unpickleAt_of_error {error : OlmErrorCode}
    (refused : opened crypto key pickled pickledLength memory = .error error) :
    (unpickleAt crypto codec lastError setError object key pickled pickledLength memory).value =
      (setError object error, none) := by
  obtain ⟨value, -⟩ := @encInputAt_eq B _ crypto key pickled pickledLength memory
  rw [unpickleAt, value_bind, value]
  unfold opened at refused
  rw [refused]
  rfl

variable (codec lastError setError object) in
/-- The reader is given the body and one byte more. -/
theorem unpickleAt_of_body {body : Bytes} (holds : opened crypto key pickled pickledLength memory = .ok body) :
    ∃ next, (unpickleAt crypto codec lastError setError object key pickled pickledLength memory).value =
      let (rest, object) := codec.read (body ++ [next]) object
      if rest.length = 1 then (object, some pickledLength)
      else if lastError object = .success then (setError object .corruptedPickle, none)
      else (object, none) := by
  obtain ⟨value, left⟩ := @encInputAt_eq B _ crypto key pickled pickledLength memory
  obtain ⟨after, hafter⟩ : ∃ after, (encInputAt crypto key pickled pickledLength memory).memory = after := ⟨_, rfl⟩
  rw [hafter] at left
  unfold opened at holds
  rw [holds] at value
  refine ⟨after (pickled + body.length), ?_⟩
  have looked : after.read pickled (body.length + 1) = body ++ [after (pickled + body.length)] := by
    rw [Memory.read_add, left body holds, Memory.read_one]
  rw [unpickleAt, value_bind, value, hafter]
  simp only [Except.map, value_bind, value_loadBytes, looked]
  split
  · rfl
  · split <;> rfl

theorem unpickleAt_isSome_iff {fields : Language UInt8} (delimited : ∀ object, Delimited (codec.read · object) fields) :
    (unpickleAt crypto codec lastError setError object key pickled pickledLength memory).value.2.isSome ↔
      ∃ body ∈ fields, opened crypto key pickled pickledLength memory = .ok body := by
  cases holds : opened crypto key pickled pickledLength memory with
  | error error =>
    rw [unpickleAt_of_error holds]
    constructor
    · exact fun impossible => nomatch impossible
    · rintro ⟨_, _, impossible⟩
      cases impossible
  | ok body =>
    obtain ⟨next, value⟩ := unpickleAt_of_body codec lastError setError object holds
    have exactly := (delimited object).leaves_one_iff body next
    have accepts : (unpickleAt crypto codec lastError setError object key pickled pickledLength memory).value.2.isSome ↔
        (codec.read (body ++ [next]) object).1.length = 1 := by
      rw [value]
      dsimp only
      split
      · rename_i one
        exact ⟨fun _ => one, fun _ => rfl⟩
      · split
        all_goals exact ⟨fun impossible => (nomatch impossible), fun one => absurd one ‹_›⟩
    rw [accepts, exactly]
    constructor
    · exact fun mem => ⟨body, mem, rfl⟩
    · rintro ⟨body', mem, same⟩
      cases same
      exact mem

/-- What is restored from a body of the fields, over what the object held. -/
theorem unpickleAt_of_mem {fields : Language UInt8} (delimited : ∀ object, Delimited (codec.read · object) fields)
    {body : Bytes} (mem : body ∈ fields) (holds : opened crypto key pickled pickledLength memory = .ok body) :
    (unpickleAt crypto codec lastError setError object key pickled pickledLength memory).value =
      ((codec.read body object).2, some pickledLength) := by
  obtain ⟨next, value⟩ := unpickleAt_of_body codec lastError setError object holds
  have read : codec.read (body ++ [next]) object = ([next], (codec.read body object).2) :=
    (delimited object).read_append mem [next]
  rw [value, read]
  rfl

end Pickle

/-- Unpickling that wants a body to be filled by the fields, no less and no more. -/
structure ExactUnpickle (fields : Language UInt8) (ready : Prop)
    (unpickle : (key : Bytes) → (pickled : Pointer B) → (pickledLength : Nat) → α → Prog B (α × Option Nat)) :
    Prop where
  accepted_iff : ∀ key pickled pickledLength object memory,
    (unpickle key pickled pickledLength object memory).value.2.isSome ↔
      ready ∧ ∃ body ∈ fields, Pickle.opened crypto key pickled pickledLength memory = .ok body
  alone : ∀ body ∈ fields, ∀ longer ∈ fields, body <+: longer → body = longer
  restored : ∃ restore : (body : Bytes) → α → α, ∀ key pickled pickledLength object memory, ready → ∀ body ∈ fields,
    Pickle.opened crypto key pickled pickledLength memory = .ok body →
    (unpickle key pickled pickledLength object memory).value = (restore body object, some pickledLength)

theorem exactUnpickle_codec {codec : Codec UInt8 α} (lastError : α → OlmErrorCode) (setError : α → OlmErrorCode → α)
    {fields : Language UInt8} (delimited : ∀ object, Delimited (codec.read · object) fields) (anyObject : α) :
    ExactUnpickle (B := B) crypto fields True fun key pickled pickledLength object =>
      Pickle.unpickleAt crypto codec lastError setError object key pickled pickledLength where
  accepted_iff key pickled pickledLength object memory := by
    rw [true_and]
    exact Pickle.unpickleAt_isSome_iff delimited
  alone body mem longer mem' front := (delimited anyObject).eq_of_front mem mem' front
  restored := by
    refine ⟨fun body object => (codec.read body object).2, ?_⟩
    intro key pickled pickledLength object memory _ body mem holds
    exact Pickle.unpickleAt_of_mem delimited mem holds

theorem PkDecryption.unpickleAt_short (key : Bytes) (pickled : Pointer B) (pickledLength : Nat)
    {pubkey : Option (Pointer B × Nat)}
    (short : ¬ ∀ p pubkeyLength, pubkey = some (p, pubkeyLength) → pkKeyLength ≤ pubkeyLength)
    (decryption : PkDecryption) (memory : Memory B) :
    (unpickleAt crypto key pickled pickledLength pubkey decryption memory).value =
      ({ decryption with lastError := .outputBufferTooSmall }, none) := by
  cases pubkey with
  | none =>
    refine absurd ?_ short
    intro p pubkeyLength impossible
    cases impossible
  | some buffer =>
    obtain ⟨p, pubkeyLength⟩ := buffer
    have small : pubkeyLength < pkKeyLength := by
      by_contra long
      apply short
      intro p pubkeyLength same
      cases same
      exact Nat.le_of_not_lt long
    simp only [unpickleAt, Option.any_some, small, decide_true, if_true, run_pure]

/-- The bodies of accounts, of both versions of sessions and of decryption objects say where they end. -/
theorem unpickle_exact :
    ExactUnpickle (B := B) crypto Account.fields True (Account.unpickleAt crypto) ∧
    ExactUnpickle (B := B) crypto Session.fields True (Session.unpickleAt crypto) ∧
    ∀ pubkey : Option (Pointer B × Nat), ExactUnpickle crypto PkDecryption.fields
      (∀ p pubkeyLength, pubkey = some (p, pubkeyLength) → pkKeyLength ≤ pubkeyLength)
      fun key pickled pickledLength => PkDecryption.unpickleAt crypto key pickled pickledLength pubkey := by
  refine ⟨?account, ?session, ?pkDecryption⟩
  case account =>
    exact exactUnpickle_codec crypto _ _ Account.unpickleBody_delimited clearAccount
  case session =>
    exact exactUnpickle_codec crypto _ _ Session.unpickleBody_delimited Session.plainSession
  case pkDecryption =>
    intro pubkey
    have unguarded := exactUnpickle_codec (B := B) crypto PkDecryption.lastError
      (fun decryption error => { decryption with lastError := error }) PkDecryption.unpickleBody_delimited
      PkDecryption.zeroDecryption
    refine ⟨?_, unguarded.alone, ?_⟩
    · intro key pickled pickledLength decryption memory
      by_cases long : ∀ p pubkeyLength, pubkey = some (p, pubkeyLength) → pkKeyLength ≤ pubkeyLength
      · rw [PkDecryption.unpickleAt_long crypto key pickled pickledLength long, unguarded.accepted_iff]
        exact ⟨fun accepted => ⟨long, accepted.2⟩, fun accepted => ⟨trivial, accepted.2⟩⟩
      · have refused := PkDecryption.unpickleAt_short crypto key pickled pickledLength long decryption memory
        rw [refused]
        exact ⟨fun impossible => (nomatch impossible), fun accepted => absurd accepted.1 long⟩
    · obtain ⟨restore, restored⟩ := unguarded.restored
      refine ⟨restore, ?_⟩
      intro key pickled pickledLength decryption memory long body mem holds
      rw [PkDecryption.unpickleAt_long crypto key pickled pickledLength long]
      exact restored key pickled pickledLength decryption memory trivial body mem holds

end RubyOlm
