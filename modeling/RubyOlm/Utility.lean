import RubyOlm.Base64
import RubyOlm.Crypto

/-!
# The utility object

`utility.cpp` and its entry points in `olm.cpp`, the Ruby methods around them in `ext_utility.c`, and
the table that `utility_init` installs them in. The table has the C function of `sha256` under both
names, so the signature check is never reached from Ruby.
-/

namespace RubyOlm

/-! ### The library -/

structure Utility where
  lastError : OlmErrorCode

namespace Utility

variable (crypto : Crypto)

/-- `olm_sha256`, into a buffer of `outputLength` bytes. -/
def sha256 (utility : Utility) (input : Bytes) (outputLength : Nat) : Utility × Option Bytes :=
  if outputLength < encodeBase64Length 32 then ({ utility with lastError := .outputBufferTooSmall }, none)
  else (utility, some (encodeBase64 (crypto.sha256 input).val))

/-- `olm::Utility::ed25519_verify`. -/
def ed25519VerifyRaw (utility : Utility) (key : Block 32) (message signature : Bytes) :
    Utility × Option Unit :=
  if signature.length < 64 then ({ utility with lastError := .badMessageMac }, none)
  else if ¬ crypto.ed25519.verify (Block.load 64 signature) message key then
    ({ utility with lastError := .badMessageMac }, none)
  else (utility, some ())

/-- `olm_ed25519_verify`. -/
def ed25519Verify (utility : Utility) (key message signature : Bytes) : Utility × Option Unit :=
  if decodeBase64Length key.length ≠ some 32 then ({ utility with lastError := .invalidBase64 }, none)
  else
    match decodeBase64Length signature.length with
    | none => ({ utility with lastError := .invalidBase64 }, none)
    | some _ => utility.ed25519VerifyRaw crypto (Block.load 32 (decodeBase64 key)) message (decodeBase64 signature)

/-- What the check is for: a key of 32 bytes, a signature of at least 64, and Ed25519 accepts. -/
def Accepts (key message signature : Bytes) : Prop :=
  decodeBase64Length key.length = some 32 ∧
    (∃ length, decodeBase64Length signature.length = some length ∧ 64 ≤ length) ∧
    crypto.ed25519.verify (Block.load 64 (decodeBase64 signature)) message (Block.load 32 (decodeBase64 key)) = true

theorem ed25519Verify_isSome_iff (utility : Utility) (key message signature : Bytes) :
    (utility.ed25519Verify crypto key message signature).2.isSome ↔ Accepts crypto key message signature := by
  rw [ed25519Verify, Accepts]
  by_cases wide : decodeBase64Length key.length = some 32
  · rw [if_neg (not_not.mpr wide)]
    cases length : decodeBase64Length signature.length with
    | none =>
      constructor
      · intro none
        cases none
      · rintro ⟨-, ⟨n, impossible, -⟩, -⟩
        cases impossible
    | some n =>
      dsimp only
      rw [ed25519VerifyRaw, length_decodeBase64 signature length]
      by_cases short : n < 64
      · rw [if_pos short]
        constructor
        · intro none
          cases none
        · rintro ⟨-, ⟨m, same, long⟩, -⟩
          obtain rfl := Option.some.inj same
          omega
      rw [if_neg short]
      by_cases valid : crypto.ed25519.verify (Block.load 64 (decodeBase64 signature)) message
          (Block.load 32 (decodeBase64 key)) = true
      · rw [if_neg (not_not.mpr valid)]
        exact ⟨fun _ => ⟨wide, ⟨n, rfl, by omega⟩, valid⟩, fun _ => rfl⟩
      · rw [if_pos valid]
        constructor
        · intro none
          cases none
        · exact fun accepted => absurd accepted.2.2 valid
  · rw [if_pos wide]
    constructor
    · intro none
      cases none
    · exact fun accepted => absurd accepted.1 wide

end Utility

/-! ### The Ruby methods -/

inductive Value where
  | nil
  | false
  | true
  | string (bytes : Bytes)
  deriving DecidableEq

def Value.falsy (value : Value) : Prop := value = .nil ∨ value = .false

/-- What a call leaves: the object and a value, or nothing when it raised an exception. -/
abbrev Called := Utility × Option Value

namespace Value

variable (crypto : Crypto)

/-- `static VALUE ed25519_verify(VALUE self, VALUE data, VALUE key, VALUE signature)`. Its string
arguments are read without a check that they are strings, so nothing is said of other values. -/
def ed25519Verify (self : Utility) (arguments : List Value) : Called :=
  match arguments with
  | string data :: string key :: string signature :: _ =>
    match self.ed25519Verify crypto key data signature with
    | (self, none) => (self, some false)
    | (self, some ()) => (self, some true)
  | _ => (self, none)

/-- `static VALUE sha256(VALUE self, VALUE data)`. Called with more arguments, a C function does not
look at the others. -/
def sha256 (self : Utility) (arguments : List Value) : Called :=
  match arguments with
  | string data :: _ =>
    let (self, digest) := self.sha256 crypto data (encodeBase64Length 32)
    (self, some (string (digest.getD [])))
  | _ => (self, none)

structure Method where
  name : String
  function : Utility → List Value → Called
  arity : Nat

/-- The table of `utility_init`. -/
def utilityInit : List Method := [
  { name := "sha256", function := sha256 crypto, arity := 1 },
  { name := "ed25519_verify", function := sha256 crypto, arity := 3 }]

/-- A method call: the last entry of that name, if the number of arguments is right. -/
def send (methods : List Method) (self : Utility) (name : String) (arguments : List Value) : Called :=
  match methods.reverse.find? (·.name = name) with
  | none => (self, none)
  | some method =>
    if method.arity = arguments.length then method.function self arguments else (self, none)

/-- `utility.ed25519_verify(data, key, signature)`. -/
def sendEd25519Verify (self : Utility) (data key signature : Bytes) : Called :=
  send (utilityInit crypto) self "ed25519_verify" [string data, string key, string signature]

structure Answers (key data signature : Bytes) (answer : Option Value) : Prop where
  accepted : answer = some true ↔ Utility.Accepts crypto key data signature
  rejected : ¬ Utility.Accepts crypto key data signature → ∃ value, answer = some value ∧ value.falsy

/-- The function that was written for the method gives the right answer. -/
theorem ed25519Verify_answers (self : Utility) (data key signature : Bytes) :
    Answers crypto key data signature
      (ed25519Verify crypto self [string data, string key, string signature]).2 := by
  have verified := Utility.ed25519Verify_isSome_iff crypto self key data signature
  rw [ed25519Verify]
  rcases h : self.ed25519Verify crypto key data signature with ⟨after, _ | _⟩
  · rw [h] at verified
    have refused : ¬ Utility.Accepts crypto key data signature :=
      fun accepted => Bool.false_ne_true (verified.mpr accepted)
    refine { accepted := ⟨fun answer => ?_, fun accepted => absurd accepted refused⟩, rejected := fun _ => ?_ }
    · cases answer
    · exact ⟨false, rfl, Or.inr rfl⟩
  · rw [h] at verified
    have accepted : Utility.Accepts crypto key data signature := verified.mp rfl
    exact
      { accepted := ⟨fun _ => accepted, fun _ => rfl⟩
        rejected := fun refused => absurd accepted refused }

/-- The function that is installed hashes the data, whatever the key and the signature. -/
theorem sendEd25519Verify_eq (self : Utility) (data key signature : Bytes) :
    sendEd25519Verify crypto self data key signature =
      (self, some (string (encodeBase64 (crypto.sha256 data).val))) := by
  have found : (utilityInit crypto).reverse.find? (·.name = "ed25519_verify") =
      some { name := "ed25519_verify", function := sha256 crypto, arity := 3 } := rfl
  rw [sendEd25519Verify, send, found]
  dsimp only
  rw [if_pos (by rfl), sha256, Utility.sha256, if_neg (Nat.lt_irrefl _)]
  rfl

theorem sendEd25519Verify_never_answers (self : Utility) (data key signature : Bytes) :
    ¬ Answers crypto key data signature (sendEd25519Verify crypto self data key signature).2 := by
  intro answers
  rw [sendEd25519Verify_eq] at answers
  by_cases accepted : Utility.Accepts crypto key data signature
  · cases answers.accepted.mpr accepted
  · obtain ⟨value, answer, falsy⟩ := answers.rejected accepted
    obtain rfl := Option.some.inj answer
    rcases falsy with none | no
    · cases none
    · cases no

/-- Three empty strings: the key is refused, and the answer is the digest of the empty string. -/
theorem sendEd25519Verify_empty :
    ¬ ∀ (crypto : Crypto) (self : Utility) (data key signature : Bytes),
      Answers crypto key data signature (sendEd25519Verify crypto self data key signature).2 := by
  intro answers
  have refused : ¬ Utility.Accepts Crypto.plain [] [] [] := fun accepted => by
    cases accepted.1
  obtain ⟨value, answer, falsy⟩ := (answers Crypto.plain ⟨.success⟩ [] [] []).rejected refused
  rw [sendEd25519Verify_eq] at answer
  obtain rfl := Option.some.inj answer
  rcases falsy with none | no
  · cases none
  · cases no

end Value

end RubyOlm
