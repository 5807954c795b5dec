import RubyOlm.Buffers.Pickle
import RubyOlm.Session.Errors
import RubyOlm.Session.Establishment

/-!
# Texts that are not base64

Nobody looks at the characters of a text, only at how many there are. Where a key is expected it is the length of one, and
elsewhere any length that does not leave a single character over.
-/

namespace RubyOlm

/-- There is a byte that is not in the alphabet, or a single character is left over at the end. -/
def InvalidBase64 (text : Bytes) : Prop :=
  (∃ char ∈ text, char ∉ encodeBase64Table) ∨ text.length % 4 = 1

variable {text : Bytes}

/-- For a call that has the length of the text refused first, and that fails with other errors after that. -/
theorem rejected_iff {Answer : Type} {answer rejected : Answer} {inputLength : Nat}
    (refused : decodeBase64Length inputLength = none → answer = rejected)
    (decoded : ∀ rawLength, decodeBase64Length inputLength = some rawLength → answer ≠ rejected) :
    answer = rejected ↔ inputLength % 4 = 1 := by
  rw [← decodeBase64Length_eq_none_iff]
  refine ⟨fun rejects => ?_, refused⟩
  cases decodes : decodeBase64Length inputLength with
  | none => rfl
  | some rawLength => exact absurd rejects (decoded rawLength decodes)

/-! ### Sessions -/

namespace Session

variable {Key : Type} (ops : RatchetOps Key Bytes) (session : Session Key) (stack : PreKeyMessageReader)

theorem createInboundSession_rejected_iff (account : Account) :
    session.createInboundSession ops stack account text = some ({ session with lastError := .invalidBase64 }, none) ↔
      text.length % 4 = 1 := by
  apply rejected_iff
  · intro refused
    rw [createInboundSession, b64Input, refused]
  · intro rawLength decodes rejects
    rw [createInboundSession, b64Input, decodes] at rejects
    rcases newInboundSession_error ops rejects with error | error <;> cases error

theorem olmMatchesInboundSession_rejected_iff :
    session.olmMatchesInboundSession stack text = ({ session with lastError := .invalidBase64 }, none) ↔
      text.length % 4 = 1 := by
  apply rejected_iff
  · intro refused
    rw [olmMatchesInboundSession, b64Input, refused]
  · intro rawLength decodes rejects
    rw [olmMatchesInboundSession, b64Input, decodes] at rejects
    cases (Prod.mk.inj rejects).2

theorem olmDecrypt_rejected_iff (messageType : MessageType) (maxPlaintextLength : Nat) :
    session.olmDecrypt ops stack messageType text maxPlaintextLength =
      ({ session with lastError := .invalidBase64 }, none) ↔ text.length % 4 = 1 := by
  apply rejected_iff
  · intro refused
    rw [olmDecrypt, b64Input, refused]
  · intro rawLength decodes rejects
    rw [olmDecrypt, b64Input, decodes] at rejects
    rcases decrypt_error rejects with (error | error | error) | error <;> cases error

theorem b64Key_eq_none_iff {key : Bytes} : b64Key key = none ↔ key.length ≠ 43 := by
  have length : decodeBase64Length key.length = some 32 ↔ key.length = 43 := by
    unfold decodeBase64Length
    split
    · rename_i single
      exact ⟨by rintro ⟨⟩, fun long => absurd (long ▸ single) (by decide)⟩
    · rw [Option.some_inj]
      omega
  rw [b64Key, ne_eq, ← length]
  split
  · exact ⟨by rintro ⟨⟩, fun refused => absurd (by assumption) refused⟩
  · exact ⟨fun _ => by assumption, fun _ => rfl⟩

/-- Keys of the right length are decoded, whatever they are made of. -/
theorem createOutboundSession_rejected_iff (account : Account) (theirIdentityKey theirOneTimeKey random : Bytes) :
    session.createOutboundSession ops account theirIdentityKey theirOneTimeKey random =
        ({ session with lastError := .invalidBase64 }, none) ↔
      theirIdentityKey.length ≠ 43 ∨ theirOneTimeKey.length ≠ 43 := by
  rw [← b64Key_eq_none_iff, ← b64Key_eq_none_iff, createOutboundSession]
  cases identity : b64Key theirIdentityKey with
  | none => exact ⟨fun _ => .inl rfl, fun _ => rfl⟩
  | some identityKey =>
    cases oneTime : b64Key theirOneTimeKey with
    | none => exact ⟨fun _ => .inr rfl, fun _ => rfl⟩
    | some oneTimeKey =>
      constructor
      · intro rejects
        dsimp only at rejects
        unfold newOutboundSession at rejects
        split at rejects
        · cases congrArg Session.lastError (Prod.mk.inj rejects).1
        · cases (Prod.mk.inj rejects).2
      · rintro (impossible | impossible) <;> cases impossible

end Session

/-! ### Group sessions -/

namespace InboundGroupSession

variable (crypto : Crypto) (session : InboundGroupSession)

theorem getMegolm_error {session' : InboundGroupSession} {messageIndex : UInt32}
    (failed : session.getMegolm crypto messageIndex = (session', none)) : session'.lastError = .unknownMessageIndex := by
  unfold getMegolm at failed
  split at failed
  · cases (Prod.mk.inj failed).2
  · split at failed
    · obtain ⟨rfl, -⟩ := Prod.mk.inj failed
      rfl
    · cases (Prod.mk.inj failed).2

/-- The errors of `decrypt` behind its base64, of which none is that of base64. -/
theorem decryptRaw_error {stack : GroupMessageResults} {message : Bytes} {maxPlaintextLength : Nat}
    (failed : (session.decryptRaw crypto stack message maxPlaintextLength).plaintext = none) :
    (session.decryptRaw crypto stack message maxPlaintextLength).session.lastError ≠ .invalidBase64 := by
  obtain ⟨left, ended⟩ : ∃ left, session.decryptRaw crypto stack message maxPlaintextLength = left := ⟨_, rfl⟩
  rw [ended] at failed ⊢
  unfold decryptRaw at ended
  dsimp only at ended
  split at ended
  · subst ended
    exact fun impossible => (nomatch impossible)
  · split at ended
    · split at ended
      · subst ended
        exact fun impossible => (nomatch impossible)
      · split at ended
        · subst ended
          exact fun impossible => (nomatch impossible)
        · split at ended
          · rename_i unknown
            subst ended
            rw [getMegolm_error crypto session unknown]
            exact fun impossible => (nomatch impossible)
          · split at ended
            · subst ended
              exact fun impossible => (nomatch impossible)
            · subst ended
              cases failed
    · subst ended
      exact fun impossible => (nomatch impossible)

theorem decrypt_rejected_iff (stack : GroupMessageResults) (maxPlaintextLength : Nat) :
    session.decrypt crypto stack text maxPlaintextLength = ⟨{ session with lastError := .invalidBase64 }, none, none⟩ ↔
      text.length % 4 = 1 := by
  apply rejected_iff
  · intro refused
    rw [decrypt, refused]
  · intro rawLength decodes rejects
    rw [decrypt, decodes] at rejects
    exact decryptRaw_error crypto session (congrArg Decrypted.plaintext rejects)
      (congrArg (fun left => left.session.lastError) rejects)

theorem initGroupSessionKeys_error {session' : InboundGroupSession} {keyBuf : Bytes} {exportFormat : Bool}
    (failed : session.initGroupSessionKeys crypto keyBuf exportFormat = (session', none)) :
    session'.lastError = .badSessionKey ∨ session'.lastError = .badSignature := by
  unfold initGroupSessionKeys at failed
  generalize (if exportFormat then sessionExportVersion else OutboundGroupSession.sessionKeyVersion) = expected at failed
  dsimp only at failed
  split at failed
  · obtain ⟨rfl, -⟩ := Prod.mk.inj failed
    exact .inl rfl
  · split at failed
    · cases (Prod.mk.inj failed).2
    · split at failed
      · cases (Prod.mk.inj failed).2
      · obtain ⟨rfl, -⟩ := Prod.mk.inj failed
        exact .inr rfl

theorem init_rejected_iff :
    session.init crypto text = ({ session with lastError := .invalidBase64 }, none) ↔ text.length % 4 = 1 := by
  apply rejected_iff
  · intro refused
    rw [init, loadSessionKey, refused]
  · intro rawLength decodes rejects
    rw [init, loadSessionKey, decodes] at rejects
    dsimp only at rejects
    split at rejects
    · cases congrArg lastError (Prod.mk.inj rejects).1
    · rcases initGroupSessionKeys_error crypto session rejects with error | error <;> cases error

end InboundGroupSession

/-! ### Pickles -/

namespace Pickle

variable {B : Type} [DecidableEq B] (crypto : Crypto) {α : Type} {codec : Codec UInt8 α} {lastError : α → OlmErrorCode}
  {setError : α → OlmErrorCode → α} (key : Bytes) (pickled : Pointer B) {pickledLength : Nat} (memory : Memory B)

theorem encInputAt_refused (refused : decodeBase64Length pickledLength = none) :
    (encInputAt crypto key pickled pickledLength memory).value = .error .invalidBase64 := by
  rw [encInputAt, refused]
  rfl

theorem encInputAt_error {rawLength : Nat} (decodes : decodeBase64Length pickledLength = some rawLength)
    {error : OlmErrorCode} (failed : (encInputAt crypto key pickled pickledLength memory).value = .error error) :
    error = .badAccountKey := by
  rw [encInputAt, decodes] at failed
  dsimp only at failed
  rw [Prog.value_bind, Prog.value_bind] at failed
  cases opened : (aesSha256DecryptAt crypto.kdf crypto.aes (ascii "Pickle") key pickled rawLength pickled
      (rawLength - (pickleCipher crypto).macLength) pickled (rawLength - (pickleCipher crypto).macLength)
      (decodeBase64At pickled pickledLength pickled memory).memory).value with
  | none =>
    rw [opened] at failed
    exact (Except.error.inj failed).symm
  | some length =>
    rw [opened] at failed
    cases failed

theorem unpickleAt_refused (object : α) (refused : decodeBase64Length pickledLength = none) :
    (unpickleAt crypto codec lastError setError object key pickled pickledLength memory).value =
      (setError object .invalidBase64, none) := by
  rw [unpickleAt, Prog.value_bind, encInputAt_refused crypto key pickled memory refused]
  rfl

/-- The reader only sets errors of its own. One that is there already stays, also when it is not the reason. -/
theorem unpickleAt_error (sets : ∀ object error, lastError (setError object error) = error)
    (reads : ∀ object body, lastError object ≠ .invalidBase64 → lastError (codec.read body object).2 ≠ .invalidBase64)
    {rawLength : Nat} (decodes : decodeBase64Length pickledLength = some rawLength) {object after : α}
    (fresh : lastError object ≠ .invalidBase64)
    (failed : (unpickleAt crypto codec lastError setError object key pickled pickledLength memory).value =
      (after, none)) : lastError after ≠ .invalidBase64 := by
  rw [unpickleAt, Prog.value_bind] at failed
  cases opened : (encInputAt crypto key pickled pickledLength memory).value with
  | error error =>
    rw [opened] at failed
    obtain rfl := encInputAt_error crypto key pickled memory decodes opened
    obtain ⟨rfl, -⟩ := Prod.mk.inj failed
    rw [sets]
    decide
  | ok rawLength =>
    rw [opened] at failed
    dsimp only at failed
    rw [Prog.value_bind] at failed
    split at failed
    · cases (Prod.mk.inj failed).2
    · split at failed
      · obtain ⟨rfl, -⟩ := Prod.mk.inj failed
        rw [sets]
        decide
      · obtain ⟨rfl, -⟩ := Prod.mk.inj failed
        exact reads object _ fresh

theorem unpickleAt_rejected_iff (sets : ∀ object error, lastError (setError object error) = error)
    (reads : ∀ object body, lastError object ≠ .invalidBase64 → lastError (codec.read body object).2 ≠ .invalidBase64)
    {object : α} (fresh : lastError object ≠ .invalidBase64) :
    (unpickleAt crypto codec lastError setError object key pickled pickledLength memory).value =
      (setError object .invalidBase64, none) ↔ pickledLength % 4 = 1 := by
  apply rejected_iff
  · exact unpickleAt_refused crypto key pickled memory object
  · intro rawLength decodes rejects
    exact unpickleAt_error crypto key pickled memory sets reads decodes fresh rejects (sets _ _)

end Pickle

theorem Account.read_lastError (account : Account) (body : Bytes) (fresh : account.lastError ≠ .invalidBase64) :
    (codec.read body account).2.lastError ≠ .invalidBase64 := by
  unfold codec unpickleBody
  dsimp only
  split
  · exact fresh
  · split <;> exact fun impossible => (nomatch impossible)

theorem Session.unpickleFields_lastError (rest : Bytes) (value : Session (Block 32)) (includesChainIndex : Bool) :
    (unpickleFields rest value includesChainIndex).2.lastError = value.lastError := by
  unfold unpickleFields
  dsimp only

theorem Session.read_lastError (session : Session (Block 32)) (body : Bytes)
    (fresh : session.lastError ≠ .invalidBase64) : (codec.read body session).2.lastError ≠ .invalidBase64 := by
  unfold codec unpickleBody
  dsimp only
  split
  · rw [unpickleFields_lastError]
    exact fresh
  · split
    · rw [unpickleFields_lastError]
      exact fresh
    · exact fun impossible => (nomatch impossible)

/-! ### All of them -/

/-- Which functions reject `text`: each time with `INVALID_BASE64` and an object that is otherwise as it was. -/
structure RejectsByLength (crypto : Crypto) (reader : MessageReader) (text : Bytes) : Prop where
  createInboundSession : ∀ (session : Session (Block 32)) (stack : PreKeyMessageReader) (account : Account),
    session.createInboundSession (olmRatchet crypto reader) stack account text =
      some ({ session with lastError := .invalidBase64 }, none) ↔ text.length % 4 = 1
  matchesInboundSession : ∀ (session : Session (Block 32)) (stack : PreKeyMessageReader),
    session.olmMatchesInboundSession stack text = ({ session with lastError := .invalidBase64 }, none) ↔
      text.length % 4 = 1
  decrypt : ∀ (session : Session (Block 32)) (stack : PreKeyMessageReader) (messageType : MessageType)
      (maxPlaintextLength : Nat),
    session.olmDecrypt (olmRatchet crypto reader) stack messageType text maxPlaintextLength =
      ({ session with lastError := .invalidBase64 }, none) ↔ text.length % 4 = 1
  theirIdentityKey : ∀ (session : Session (Block 32)) (account : Account) (theirOneTimeKey random : Bytes),
    session.createOutboundSession (olmRatchet crypto reader) account text theirOneTimeKey random =
        ({ session with lastError := .invalidBase64 }, none) ↔
      text.length ≠ 43 ∨ theirOneTimeKey.length ≠ 43
  theirOneTimeKey : ∀ (session : Session (Block 32)) (account : Account) (theirIdentityKey random : Bytes),
    session.createOutboundSession (olmRatchet crypto reader) account theirIdentityKey text random =
        ({ session with lastError := .invalidBase64 }, none) ↔
      theirIdentityKey.length ≠ 43 ∨ text.length ≠ 43
  -- an error that an earlier call has left is not told from one of this call
  unpickleAccount : ∀ {B : Type} [DecidableEq B] (account : Account) (key : Bytes) (pickled : Pointer B)
      (memory : Memory B), memory.read pickled text.length = text →
    let rejected := (account.unpickleAt crypto key pickled text.length memory).value =
      ({ account with lastError := .invalidBase64 }, none)
    (text.length % 4 = 1 → rejected) ∧ (account.lastError ≠ .invalidBase64 → rejected → text.length % 4 = 1)
  unpickleSession : ∀ {B : Type} [DecidableEq B] (session : Session (Block 32)) (key : Bytes) (pickled : Pointer B)
      (memory : Memory B), memory.read pickled text.length = text →
    let rejected := (session.unpickleAt crypto key pickled text.length memory).value =
      ({ session with lastError := .invalidBase64 }, none)
    (text.length % 4 = 1 → rejected) ∧ (session.lastError ≠ .invalidBase64 → rejected → text.length % 4 = 1)
  groupDecrypt : ∀ (session : InboundGroupSession) (stack : GroupMessageResults) (maxPlaintextLength : Nat),
    session.decrypt crypto stack text maxPlaintextLength =
      ⟨{ session with lastError := .invalidBase64 }, none, none⟩ ↔ text.length % 4 = 1
  initInboundGroupSession : ∀ session : InboundGroupSession,
    session.init crypto text = ({ session with lastError := .invalidBase64 }, none) ↔ text.length % 4 = 1

theorem invalid_base64_rejected_iff (crypto : Crypto) (reader : MessageReader) (text : Bytes) :
    RejectsByLength crypto reader text where
  createInboundSession session stack account := session.createInboundSession_rejected_iff _ stack account
  matchesInboundSession session stack := session.olmMatchesInboundSession_rejected_iff stack
  decrypt session stack messageType maxPlaintextLength :=
    session.olmDecrypt_rejected_iff _ stack messageType maxPlaintextLength
  theirIdentityKey session account theirOneTimeKey random :=
    session.createOutboundSession_rejected_iff _ account text theirOneTimeKey random
  theirOneTimeKey session account theirIdentityKey random :=
    session.createOutboundSession_rejected_iff _ account theirIdentityKey text random
  unpickleAccount account key pickled memory _ := by
    refine ⟨fun single => ?_, fun fresh => ?_⟩
    · exact Pickle.unpickleAt_refused crypto key pickled memory account (decodeBase64Length_eq_none_iff.mpr single)
    · exact (Pickle.unpickleAt_rejected_iff crypto key pickled memory (fun _ _ => rfl) Account.read_lastError fresh).mp
  unpickleSession session key pickled memory _ := by
    refine ⟨fun single => ?_, fun fresh => ?_⟩
    · exact Pickle.unpickleAt_refused crypto key pickled memory session (decodeBase64Length_eq_none_iff.mpr single)
    · exact (Pickle.unpickleAt_rejected_iff crypto key pickled memory (fun _ _ => rfl) Session.read_lastError fresh).mp
  groupDecrypt session stack maxPlaintextLength := session.decrypt_rejected_iff crypto stack maxPlaintextLength
  initInboundGroupSession session := session.init_rejected_iff crypto

/-- Four exclamation marks are not base64, but are taken for it. -/
theorem exclamation_marks_decoded :
    InvalidBase64 (ascii "!!!!") ∧
      (Session.clearSession.olmMatchesInboundSession Session.clearReader (ascii "!!!!")) ≠
        ({ Session.clearSession with lastError := .invalidBase64 }, none) := by
  refine ⟨.inl ⟨0x21, by decide, by decide⟩, ?_⟩
  intro rejects
  have rejected := invalid_base64_rejected_iff Crypto.plain ⟨0, ⟨0, false⟩, none, none⟩ (ascii "!!!!")
  exact absurd ((rejected.matchesInboundSession Session.clearSession Session.clearReader).mp rejects) (by decide)

/-- A session with keys that have no character of base64 in them. -/
theorem exclamation_keys_accepted :
    InvalidBase64 (List.replicate 43 0x21) ∧
    (Session.clearSession.createOutboundSession (olmRatchet Crypto.plain ⟨0, ⟨0, false⟩, none, none⟩) clearAccount
      (List.replicate 43 0x21) (List.replicate 43 0x21) (List.replicate 64 0)).2 = some () :=
  ⟨.inl ⟨0x21, by decide, by decide⟩, by decide +kernel⟩

end RubyOlm
